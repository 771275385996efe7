import Rationale.Kernel.Validate
import Rationale.Library.Enumerate

namespace Rationale.Kernel

open Std Relation Rationale.Library

/-!
# What `traverse` computes from its arguments

The traversal loop is `Library.enumerate` over path extensions, whatever goal, node map, superseded
set and active edges it is called with.

* `TraversalInput` — what `validate` and `active_edges` guarantee about these arguments;
* `Route`, `routes` — simple paths over the edges, as edge lists, and `routePath` their records;
* `traverseLoop_eq` — the loop is the enumeration, with its accumulators read off the paths;
* `traverse_exact` — every simple path exactly once, shorter ones first, and an error exactly beyond
  the path-state limit.
-/

/-- What the arguments of `traverse` satisfy after `validate` and `active_edges`. -/
structure TraversalInput (goal : ProofGoal) (nodes : NodeMap) (superseded : StringSet)
    (edges : List EvidenceEdge) : Prop where
  keyed : KeyedBy EvidenceNode.id nodes
  target : goal.targetId ∈ nodes
  active : ∀ edge ∈ edges, activeId nodes superseded edge.sourceId = true ∧
    activeId nodes superseded edge.targetId = true
  ids_nodup : (edges.map (·.id)).Nodup

/-- A simple path from the goal's target over some edges: its nodes and its edges. -/
abbrev Route (goal : ProofGoal) (edges : List EvidenceEdge) :
    List String → List EvidenceEdge → Prop :=
  SimplePath EvidenceEdge.sourceId EvidenceEdge.targetId (· ∈ edges) goal.targetId

/-- The simple paths from the goal's target, parallel edges distinguished. -/
def routes (goal : ProofGoal) (edges : List EvidenceEdge) : Set (List EvidenceEdge) :=
  {es | ∃ nodeIds, Route goal edges nodeIds es}

/-- A route of identifiers. -/
def IsRoute (goal : ProofGoal) (edges : List EvidenceEdge) (path : Path) : Prop :=
  ∃ es, Route goal edges path.nodeIds es ∧ path.edgeIds = es.map (·.id)

/-- The path of an edge list that starts at the goal's target. -/
def routePath (goal : ProofGoal) (es : List EvidenceEdge) : Path where
  nodeIds := goal.targetId :: es.map (·.targetId)
  edgeIds := es.map (·.id)
  nodeIds_ne := List.cons_ne_nil _ _

@[simp] theorem Path.lastId_snoc (path : Path) (edge : EvidenceEdge) :
    (path.snoc edge).lastId = edge.targetId := by
  simp [Path.lastId, Path.snoc]

theorem activeId_eq_true_iff {nodes : NodeMap} {superseded : StringSet} {id : String} :
    activeId nodes superseded id = true ↔
      ∃ node, nodes[id]? = some node ∧ activeNode superseded node = true := by
  unfold activeId
  cases nodes[id]? with
  | none => simp
  | some node => simp

theorem mem_of_activeId {nodes : NodeMap} {superseded : StringSet} {id : String}
    (h : activeId nodes superseded id = true) : id ∈ nodes := by
  obtain ⟨node, hnode, -⟩ := activeId_eq_true_iff.mp h
  rw [← ExtTreeMap.isSome_getElem?_iff_mem, hnode]
  rfl

/-! ### Extensions of a path -/

/-- The adjacency map lists the edges that leave each node, in order. -/
theorem getElem?_outgoingMap (edges : List EvidenceEdge) (id : String) :
    (outgoingMap edges)[id]?.getD [] = edges.filter (fun edge => edge.sourceId = id) := by
  rw [outgoingMap, List.foldl_reverse]
  induction edges with
  | nil => simp
  | cons edge edges ih =>
    rw [List.foldr_cons, ExtTreeMap.getElem?_insert, List.filter_cons]
    by_cases h : edge.sourceId = id
    · subst h
      simp [ih]
    · simp [h, ih]

section Extensions

variable {edges : List EvidenceEdge} {path next : Path}

theorem mem_extensions :
    next ∈ extensions (outgoingMap edges) path ↔
      ∃ edge ∈ edges, edge.sourceId = path.lastId ∧ edge.targetId ∉ path.nodeIds ∧
        next = path.snoc edge := by
  rw [extensions, getElem?_outgoingMap]
  simp only [List.mem_map, List.mem_filter, decide_eq_true_eq, Bool.not_eq_true',
    List.contains_eq_mem, decide_eq_false_iff_not]
  constructor
  · rintro ⟨edge, ⟨⟨hmem, hsource⟩, hfresh⟩, rfl⟩
    exact ⟨edge, hmem, hsource, hfresh, rfl⟩
  · rintro ⟨edge, hmem, hsource, hfresh, rfl⟩
    exact ⟨edge, ⟨⟨hmem, hsource⟩, hfresh⟩, rfl⟩

/-- Extensions form a forest: a path is the extension of the path without its last edge. -/
theorem forest_extensions (hids : (edges.map (·.id)).Nodup) :
    Forest (extensions (outgoingMap edges)) (fun path => path.edgeIds.length) := by
  constructor
  case nodup =>
    intro path
    rw [extensions, getElem?_outgoingMap]
    -- edges with different identifiers extend a path differently
    have hsub : (((edges.filter (fun edge => edge.sourceId = path.lastId)).filter
        (fun edge => !path.nodeIds.contains edge.targetId)).map (·.id)).Nodup :=
      hids.sublist ((List.filter_sublist.trans List.filter_sublist).map _)
    refine (List.pairwise_map.mp hsub).map _ (fun edge edge' hne heq => hne ?_)
    have hedges : path.edgeIds ++ [edge.id] = path.edgeIds ++ [edge'.id] :=
      congrArg Path.edgeIds heq
    exact List.singleton_inj.mp (List.append_cancel_left hedges)
  case parent_unique =>
    intro path path' next hnext hnext'
    obtain ⟨edge, -, -, -, rfl⟩ := mem_extensions.mp hnext
    obtain ⟨edge', -, -, -, heq⟩ := mem_extensions.mp hnext'
    have hnodes : path.nodeIds ++ [edge.targetId] = path'.nodeIds ++ [edge'.targetId] :=
      congrArg Path.nodeIds heq
    have hedges : path.edgeIds ++ [edge.id] = path'.edgeIds ++ [edge'.id] :=
      congrArg Path.edgeIds heq
    exact Path.ext (List.append_inj' hnodes rfl).1 (List.append_inj' hedges rfl).1
  case level_child =>
    intro path next hnext
    obtain ⟨edge, -, -, -, rfl⟩ := mem_extensions.mp hnext
    simp [Path.snoc]

/-- Extending the root path one edge at a time yields the routes. -/
theorem reflTransGen_extensions_iff {goal : ProofGoal} :
    ReflTransGen (ChildOf (extensions (outgoingMap edges))) (rootPath goal) path ↔
      IsRoute goal edges path := by
  constructor
  · intro h
    induction h with
    | refl => exact ⟨[], SimplePath.root, rfl⟩
    | @tail path next _ hchild ih =>
      obtain ⟨es, hroute, hids⟩ := ih
      obtain ⟨edge, hedge, hsource, hfresh, rfl⟩ := mem_extensions.mp hchild
      refine ⟨es ++ [edge], hroute.snoc ?_ hedge hfresh, by simp [Path.snoc, hids]⟩
      rw [path.getLast?_nodeIds, hsource]
  · rintro ⟨es, hroute, hids⟩
    obtain ⟨nodeIds, edgeIds, hne⟩ := path
    dsimp only at hroute hids
    subst hids
    induction hroute with
    | root => exact ReflTransGen.refl
    | @snoc nodeIds es edge hroute hlast hedge hfresh ih =>
      refine (ih hroute.nodes_ne_nil).tail (mem_extensions.mpr ?_)
      refine ⟨edge, hedge, ?_, hfresh, ?_⟩
      · exact (Option.some.inj ((Path.getLast?_nodeIds _).symm.trans hlast)).symm
      · simp [Path.snoc]

end Extensions

/-! ### The loop as an enumeration -/

/-- The failure of a traversal that runs out of path states. -/
def pathStateLimit : Failure :=
  (.resourceLimit, "proof traversal exceeds the path-state limit")

/-- Whether the loop records a path among its anchors. -/
def recordsAnchor (goal : ProofGoal) (nodes : NodeMap) (superseded : StringSet) (path : Path) :
    Bool :=
  match nodes[path.lastId]? with
  | some node => activeNode superseded node && isAnchor goal node
  | none => false

/-- The traversal read off the list of paths taken from the queue. -/
def traversalOfPaths (goal : ProofGoal) (nodes : NodeMap) (superseded : StringSet)
    (visited paths anchors : List Path) (reachable : StringSet) : Traversal where
  paths := paths.reverse ++ visited
  anchors := (visited.filter (recordsAnchor goal nodes superseded)).reverse ++ anchors
  reachable := visited.foldl (fun reachable path => reachable.insert path.lastId) reachable

section Loop

variable {goal : ProofGoal} {nodes : NodeMap} {superseded : StringSet} {edges : List EvidenceEdge}
  (h : TraversalInput goal nodes superseded edges)

include h

/-- A path that ends at an inactive node has no extensions. -/
theorem TraversalInput.extensions_eq_nil {path : Path} {node : EvidenceNode}
    (hnode : nodes[path.lastId]? = some node) (hactive : ¬ activeNode superseded node = true) :
    extensions (outgoingMap edges) path = [] := by
  rw [List.eq_nil_iff_forall_not_mem]
  intro next hnext
  obtain ⟨edge, hedge, hsource, -⟩ := mem_extensions.mp hnext
  obtain ⟨node', hnode', hactive'⟩ := activeId_eq_true_iff.mp (h.active edge hedge).1
  rw [hsource, hnode] at hnode'
  exact hactive (Option.some.inj hnode' ▸ hactive')

/-- **The loop is the enumeration.** With every queued path ending at a known node, the loop takes
    exactly the paths that `enumerate` takes, and fails only when `enumerate` does. -/
theorem TraversalInput.traverseLoop_eq {budget : Nat} {queue paths anchors : List Path}
    {reachable : StringSet} (hqueue : ∀ path ∈ queue, path.lastId ∈ nodes) :
    traverseLoop goal nodes superseded (outgoingMap edges) budget queue paths anchors reachable =
      match enumerate (extensions (outgoingMap edges)) budget queue with
      | none => .error pathStateLimit
      | some visited =>
          .ok (traversalOfPaths goal nodes superseded visited paths anchors reachable) := by
  induction budget generalizing queue paths anchors reachable with
  | zero =>
    cases queue with
    | nil => simp [traverseLoop, enumerate, traversalOfPaths]
    -- the budget is spent while a path is queued: both fail
    | cons path queue => simp [traverseLoop, enumerate, pathStateLimit]
  | succ budget ih =>
    cases queue with
    | nil => simp [traverseLoop, enumerate, traversalOfPaths]
    | cons path queue =>
      obtain ⟨node, hnode⟩ : ∃ node, nodes[path.lastId]? = some node :=
        Option.isSome_iff_exists.mp
          (ExtTreeMap.isSome_getElem?_iff_mem.mpr (hqueue path List.mem_cons_self))
      have htail : ∀ p ∈ queue, p.lastId ∈ nodes :=
        fun p hp => hqueue p (List.mem_cons_of_mem _ hp)
      rw [enumerate]
      unfold traverseLoop
      simp only [hnode]
      by_cases hactive : activeNode superseded node = true
      · -- an active node: the path's extensions join the queue
        have hext : ∀ p ∈ queue ++ extensions (outgoingMap edges) path, p.lastId ∈ nodes := by
          intro p hp
          rcases List.mem_append.mp hp with hp | hp
          · exact htail p hp
          · obtain ⟨edge, hedge, -, -, rfl⟩ := mem_extensions.mp hp
            rw [Path.lastId_snoc]
            exact mem_of_activeId (h.active edge hedge).2
        simp only [hactive, Bool.not_true, Bool.false_eq_true, if_false]
        rw [ih hext]
        cases enumerate (extensions (outgoingMap edges)) budget
            (queue ++ extensions (outgoingMap edges) path) with
        | none => rfl
        | some visited =>
          by_cases hanchor : isAnchor goal node = true
          · simp [traversalOfPaths, recordsAnchor, hnode, hactive, hanchor]
          · simp [traversalOfPaths, recordsAnchor, hnode, hactive, hanchor]
      · -- an inactive node: nothing extends the path
        have hnil := h.extensions_eq_nil hnode hactive
        rw [Bool.not_eq_true] at hactive
        simp only [hactive, Bool.not_false, if_true]
        rw [ih htail, hnil, List.append_nil]
        cases enumerate (extensions (outgoingMap edges)) budget queue with
        | none => rfl
        | some visited => simp [traversalOfPaths, recordsAnchor, hnode, hactive]

theorem TraversalInput.traverse_eq :
    traverse goal nodes superseded edges =
      match enumerate (extensions (outgoingMap edges)) maxPathStates [rootPath goal] with
      | none => .error pathStateLimit
      | some visited => .ok (traversalOfPaths goal nodes superseded visited [] [] ∅) := by
  rw [traverse]
  apply h.traverseLoop_eq
  intro path hpath
  rw [List.mem_singleton.mp hpath]
  exact h.target

end Loop

/-! ### Exactness -/

/-- The identifier names an active node of a kind that the goal accepts. -/
def AnchorId (goal : ProofGoal) (nodes : NodeMap) (superseded : StringSet) (id : String) : Prop :=
  ∃ node, nodes[id]? = some node ∧ activeNode superseded node = true ∧ isAnchor goal node = true

/-- What a finished traversal holds: every route once, shorter ones first; the routes to anchors,
    once each; and the nodes that routes lead to. -/
structure Exhaustive (goal : ProofGoal) (nodes : NodeMap) (superseded : StringSet)
    (edges : List EvidenceEdge) (traversal : Traversal) : Prop where
  mem_paths : ∀ path, path ∈ traversal.paths ↔ IsRoute goal edges path
  paths_nodup : traversal.paths.Nodup
  paths_sorted : traversal.paths.Pairwise (fun a b => a.edgeIds.length ≤ b.edgeIds.length)
  mem_anchors : ∀ path, path ∈ traversal.anchors ↔
    IsRoute goal edges path ∧ AnchorId goal nodes superseded path.lastId
  anchors_nodup : traversal.anchors.Nodup
  mem_reachable : ∀ id, id ∈ traversal.reachable ↔
    ReflTransGen (EdgeStep EvidenceEdge.sourceId EvidenceEdge.targetId (· ∈ edges)) goal.targetId id

theorem recordsAnchor_iff {goal : ProofGoal} {nodes : NodeMap} {superseded : StringSet}
    {path : Path} : recordsAnchor goal nodes superseded path = true ↔
      AnchorId goal nodes superseded path.lastId := by
  unfold recordsAnchor AnchorId
  cases nodes[path.lastId]? with
  | none => simp
  | some node => simp

section Exact

variable {goal : ProofGoal} {nodes : NodeMap} {superseded : StringSet} {edges : List EvidenceEdge}

/-- The edges of a route determine its nodes. -/
theorem isRoute_iff {path : Path} :
    IsRoute goal edges path ↔ ∃ es ∈ routes goal edges, routePath goal es = path := by
  constructor
  · rintro ⟨es, hroute, hids⟩
    refine ⟨es, ⟨path.nodeIds, hroute⟩, Path.ext ?_ hids.symm⟩
    exact hroute.nodes_eq.symm
  · rintro ⟨es, ⟨nodeIds, hroute⟩, rfl⟩
    obtain rfl := hroute.nodes_eq
    exact ⟨es, hroute, rfl⟩

/-- As many routes of identifiers as routes: edges have different identifiers. -/
theorem encard_isRoute (hids : (edges.map (·.id)).Nodup) :
    {path | IsRoute goal edges path}.encard = (routes goal edges).encard := by
  have himage : {path | IsRoute goal edges path} = routePath goal '' routes goal edges := by
    ext path
    exact isRoute_iff
  rw [himage]
  -- two routes with the same edge identifiers have the same edges
  apply Set.InjOn.encard_image
  rintro es ⟨nodeIds, hroute⟩ es' ⟨nodeIds', hroute'⟩ heq
  have hmap : es.map (·.id) = es'.map (·.id) := congrArg Path.edgeIds heq
  refine SimplePath.eq_of_map_eq (fun edge edge' hedge hedge' hid => ?_) hroute hroute' hmap
  exact List.inj_on_of_nodup_map hids hedge hedge' hid

variable (h : TraversalInput goal nodes superseded edges)

include h

/-- A traversal that finishes is exhaustive. -/
theorem TraversalInput.exhaustive {traversal : Traversal}
    (hok : traverse goal nodes superseded edges = .ok traversal) :
    Exhaustive goal nodes superseded edges traversal := by
  have hforest := forest_extensions h.ids_nodup
  rw [h.traverse_eq] at hok
  cases hvisited : enumerate (extensions (outgoingMap edges)) maxPathStates [rootPath goal] with
  | none => rw [hvisited] at hok; exact nomatch hok
  | some visited =>
    rw [hvisited] at hok
    obtain rfl := Except.ok.inj hok
    have hmem : ∀ path, path ∈ visited ↔ IsRoute goal edges path := by
      intro path
      -- the loop visits what extends the root path, and these are the routes
      rw [mem_enumerate hvisited, ← reflTransGen_extensions_iff]
      simp
    have hnodup : visited.Nodup :=
      nodup_enumerate hforest hvisited (unrelated_singleton hforest _)
    constructor
    case mem_paths => simpa [traversalOfPaths] using hmem
    case paths_nodup => simpa [traversalOfPaths] using hnodup
    case paths_sorted =>
      have hsorted := pairwise_enumerate hforest hvisited (layered_singleton _)
      simpa [traversalOfPaths] using hsorted
    case mem_anchors =>
      intro path
      simp [traversalOfPaths, recordsAnchor_iff, hmem]
    case anchors_nodup => simpa [traversalOfPaths] using hnodup.filter _
    case mem_reachable =>
      intro id
      -- a node that can be reached is reached without visiting any node twice
      rw [reachable_iff_simplePath]
      simp only [traversalOfPaths, mem_foldl_insert, Std.ExtTreeSet.not_mem_empty, false_or]
      constructor
      · rintro ⟨path, hpath, rfl⟩
        obtain ⟨es, hroute, -⟩ := (hmem path).mp hpath
        exact ⟨path.nodeIds, es, hroute, path.getLast?_nodeIds⟩
      · rintro ⟨nodeIds, es, hroute, hlast⟩
        refine ⟨⟨nodeIds, es.map (·.id), hroute.nodes_ne_nil⟩, ?_, ?_⟩
        · exact (hmem _).mpr ⟨es, hroute, rfl⟩
        · exact Option.some.inj ((Path.getLast?_nodeIds _).symm.trans hlast)

/-- A traversal either finishes or reports the path-state limit. -/
theorem TraversalInput.eq_pathStateLimit {failure : Failure}
    (hfail : traverse goal nodes superseded edges = .error failure) : failure = pathStateLimit := by
  rw [h.traverse_eq] at hfail
  split at hfail
  · exact (Except.error.inj hfail).symm
  · exact nomatch hfail

/-- A traversal finishes iff there are no more routes than path states. -/
theorem TraversalInput.exists_traverse_iff :
    (∃ traversal, traverse goal nodes superseded edges = .ok traversal) ↔
      (routes goal edges).encard ≤ maxPathStates := by
  have hforest := forest_extensions h.ids_nodup
  have hbelow : Below (extensions (outgoingMap edges)) [rootPath goal] =
      {path | IsRoute goal edges path} := by
    ext path
    simp [Below, reflTransGen_extensions_iff]
  rw [← encard_isRoute h.ids_nodup, ← hbelow,
    ← isSome_enumerate_iff hforest (unrelated_singleton hforest _), h.traverse_eq]
  cases enumerate (extensions (outgoingMap edges)) maxPathStates [rootPath goal] with
  | none => simp
  | some visited => simp

/-- **Traversal is exact.** With at most `maxPathStates` simple paths from the target the traversal
    returns each of them once, and with more it reports the limit. -/
theorem traverse_exact :
    ((routes goal edges).encard ≤ maxPathStates → ∃ traversal,
      traverse goal nodes superseded edges = .ok traversal ∧
        Exhaustive goal nodes superseded edges traversal) ∧
    (maxPathStates < (routes goal edges).encard →
      traverse goal nodes superseded edges = .error pathStateLimit) := by
  constructor
  · intro hle
    obtain ⟨traversal, hok⟩ := h.exists_traverse_iff.mpr hle
    exact ⟨traversal, hok, h.exhaustive hok⟩
  · intro hlt
    cases hresult : traverse goal nodes superseded edges with
    | error failure => rw [h.eq_pathStateLimit hresult]
    | ok traversal => exact absurd (h.exists_traverse_iff.mp ⟨traversal, hresult⟩) hlt.not_ge

end Exact

/-- Two records that lead to each other, over parallel edges one way, and to themselves. -/
def cycleNodes : NodeMap :=
  nodeMap [⟨"change", .change, .current, none, none, fixture⟩,
    ⟨"item", .workItem, .current, none, none, fixture⟩]
where
  fixture : Origin := ⟨.synthetic, "fixture", none, none⟩

def cycleEdges : List EvidenceEdge :=
  [⟨"e1", .resolvesIssue, "change", "item", .current, cycleNodes.fixture⟩,
    ⟨"e2", .documents, "change", "item", .current, cycleNodes.fixture⟩,
    ⟨"e3", .documents, "item", "change", .current, cycleNodes.fixture⟩,
    ⟨"e4", .documents, "item", "item", .current, cycleNodes.fixture⟩]

/-- The cycle, its parallel edges and its self-loop are traversed to the end. -/
theorem traverse_exact_cycle : ∃ traversal,
    traverse ⟨"change", [.workItem]⟩ cycleNodes ∅ cycleEdges = .ok traversal ∧
      Exhaustive ⟨"change", [.workItem]⟩ cycleNodes ∅ cycleEdges traversal := by
  have h : TraversalInput ⟨"change", [.workItem]⟩ cycleNodes ∅ cycleEdges :=
    ⟨keyedBy_indexBy, by decide, by decide, by decide⟩
  have hok : (traverse ⟨"change", [.workItem]⟩ cycleNodes ∅ cycleEdges).isOk = true := by
    decide
  apply (traverse_exact h).1
  cases hresult : traverse ⟨"change", [.workItem]⟩ cycleNodes ∅ cycleEdges with
  | error failure => rw [hresult] at hok; exact nomatch hok
  | ok traversal => exact h.exists_traverse_iff.mp ⟨traversal, hresult⟩

end Rationale.Kernel
