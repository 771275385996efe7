import Mathlib.Logic.Relation
import Mathlib.Data.List.Induction
import Mathlib.Data.List.Nodup

namespace Rationale.Library

open Relation

/-!
# Simple paths in a directed multigraph

Edges are values of an arbitrary type `ε` with end points `src` and `tgt`; parallel edges and
self-loops are allowed.  `E` selects the edges that may be used.

* `SimplePath` — a path from `root` that visits no node twice, as its node list and edge list,
  built by appending one edge at a time;
* `SimplePath.take` — prefixes of simple paths are simple paths;
* `SimplePath.of_edges`, `SimplePath.forall_of_head` — a path may change the selection of edges, and
  what carries over from edge to edge holds along it;
* `SimplePath.prefix_of_length_le` — where edges do not branch, the shorter path starts the longer;
* `reachable_iff_simplePath` — a node is reachable iff a simple path ends there: a walk that
  comes back to a node is cut at its first visit.
-/

variable {ν ε : Type*} (src tgt : ε → ν) (E : ε → Prop)

/-- One step along a selected edge. -/
def EdgeStep (a b : ν) : Prop := ∃ e, E e ∧ src e = a ∧ tgt e = b

/-- Paths from `root` without repeated nodes, as node list and edge list. -/
inductive SimplePath (root : ν) : List ν → List ε → Prop where
  | root : SimplePath root [root] []
  | snoc {ns : List ν} {es : List ε} {e : ε} (path : SimplePath root ns es)
      (last : ns.getLast? = some (src e)) (edge : E e) (fresh : tgt e ∉ ns) :
      SimplePath root (ns ++ [tgt e]) (es ++ [e])

variable {src tgt E} {root : ν} {ns : List ν} {es : List ε}

namespace SimplePath

theorem nodes_ne_nil (h : SimplePath src tgt E root ns es) : ns ≠ [] := by
  cases h <;> simp

theorem length_nodes (h : SimplePath src tgt E root ns es) : ns.length = es.length + 1 := by
  induction h with
  | root => rfl
  | snoc _ _ _ _ ih => simp [ih]

theorem nodup (h : SimplePath src tgt E root ns es) : ns.Nodup := by
  induction h with
  | root => simp
  | snoc _ _ _ fresh ih =>
    refine List.nodup_append.mpr ⟨ih, List.nodup_singleton _, ?_⟩
    intro a ha b hb heq
    exact fresh (List.mem_singleton.mp hb ▸ heq ▸ ha)

theorem head?_eq (h : SimplePath src tgt E root ns es) : ns.head? = some root := by
  induction h with
  | root => rfl
  | snoc path _ _ _ ih => rw [List.head?_append_of_ne_nil _ path.nodes_ne_nil, ih]

/-- Without edges a path stays at its root. -/
theorem nodes_of_nil (h : SimplePath src tgt E root ns []) : ns = [root] := by
  obtain ⟨v, rfl⟩ := List.length_eq_one_iff.mp h.length_nodes
  have hhead := h.head?_eq
  rw [List.head?_cons] at hhead
  rw [Option.some.inj hhead]

/-- The edges of a path determine its nodes. -/
theorem nodes_eq (h : SimplePath src tgt E root ns es) : ns = root :: es.map tgt := by
  induction h with
  | root => rfl
  | snoc _ _ _ _ ih => rw [ih, List.map_append, List.cons_append]; rfl

theorem edges_mem (h : SimplePath src tgt E root ns es) : ∀ e ∈ es, E e := by
  induction h with
  | root => simp
  | snoc _ _ edge _ ih =>
    intro e he
    rcases List.mem_append.mp he with he | he
    · exact ih e he
    · rw [List.mem_singleton.mp he]; exact edge

/-- Where selected edges have different names, paths are determined by the names of their edges. -/
theorem eq_of_map_eq {ι : Type*} {name : ε → ι} {es' : List ε} {ns' : List ν}
    (hname : ∀ e e', E e → E e' → name e = name e' → e = e')
    (h : SimplePath src tgt E root ns es) (h' : SimplePath src tgt E root ns' es')
    (heq : es.map name = es'.map name) : es = es' := by
  have hselected := h.edges_mem
  have hselected' := h'.edges_mem
  clear h h'
  induction es generalizing es' with
  | nil => exact (List.map_eq_nil_iff.mp heq.symm).symm
  | cons e es ih =>
    cases es' with
    | nil => exact nomatch heq
    | cons e' es' =>
      obtain ⟨hhead, htail⟩ := List.cons.inj heq
      rw [hname e e' (hselected e List.mem_cons_self) (hselected' e' List.mem_cons_self) hhead,
        ih htail (fun a ha => hselected a (List.mem_cons_of_mem _ ha))
          (fun a ha => hselected' a (List.mem_cons_of_mem _ ha))]

/-- Each edge leads from its node to the next one. -/
theorem link (h : SimplePath src tgt E root ns es) {i : Nat} {e : ε} (he : es[i]? = some e) :
    ns[i]? = some (src e) ∧ ns[i + 1]? = some (tgt e) := by
  induction h with
  | root => simp at he
  | @snoc ns es e' path last _ _ ih =>
    have hlen := path.length_nodes
    have hi : i < (es ++ [e']).length := (List.getElem?_eq_some_iff.mp he).1
    rw [List.length_append, List.length_singleton] at hi
    rcases Nat.lt_succ_iff_lt_or_eq.mp hi with hlt | rfl
    · rw [List.getElem?_append_left hlt] at he
      rw [List.getElem?_append_left (by omega), List.getElem?_append_left (by omega)]
      exact ih he
    · rw [List.getElem?_concat_length] at he
      obtain rfl := Option.some.inj he
      rw [List.getElem?_append_left (by omega), ← hlen, List.getElem?_concat_length]
      rw [List.getLast?_eq_getElem?, hlen, Nat.add_sub_cancel] at last
      exact ⟨last, rfl⟩

/-- The ends of a path's edges are on the path. -/
theorem ends_mem (h : SimplePath src tgt E root ns es) {e : ε} (he : e ∈ es) :
    src e ∈ ns ∧ tgt e ∈ ns := by
  obtain ⟨i, hi⟩ := List.mem_iff_getElem?.mp he
  obtain ⟨hsource, htarget⟩ := h.link hi
  exact ⟨List.mem_of_getElem? hsource, List.mem_of_getElem? htarget⟩

/-- A path stays a path when its edges are selected in another way. -/
theorem of_edges {E' : ε → Prop} (h : SimplePath src tgt E root ns es) (hE : ∀ e ∈ es, E' e) :
    SimplePath src tgt E' root ns es := by
  induction h with
  | root => exact SimplePath.root
  | snoc path last edge fresh ih =>
    have hinit := ih (fun e he => hE e (List.mem_append_left _ he))
    exact hinit.snoc last (hE _ (List.mem_append_right _ (List.mem_singleton_self _))) fresh

/-- The last node of a path with an edge is not its root. -/
theorem getLast?_ne_root (h : SimplePath src tgt E root ns es) (hne : es ≠ []) :
    ns.getLast? ≠ some root := by
  intro hlast
  have hlen := h.length_nodes
  have hpos : 0 < es.length := List.length_pos_iff.mpr hne
  have hfirst := h.head?_eq
  rw [List.getLast?_eq_getElem?] at hlast
  rw [List.head?_eq_getElem?] at hfirst
  have hidx := (List.getElem?_inj (by omega) h.nodup).mp (hfirst.trans hlast.symm)
  omega

/-- What holds of the first edge, and of an edge with the edge before it, holds along a path.  Only
    the first edge leaves the root. -/
theorem forall_of_head {P : ε → Prop} (h : SimplePath src tgt E root ns es)
    (hhead : ∀ e, es.head? = some e → P e)
    (hnext : ∀ e e', P e → E e' → src e' = tgt e → src e' ≠ root → P e') : ∀ e ∈ es, P e := by
  induction h with
  | root => exact fun e he => absurd he List.not_mem_nil
  | @snoc ns es e path last edge fresh ih =>
    rcases List.eq_nil_or_concat es with rfl | ⟨init, before, rfl⟩
    · intro e' he'
      obtain rfl := List.mem_singleton.mp he'
      exact hhead e' rfl
    rw [List.concat_eq_append] at *
    have hinit : ∀ e' ∈ init ++ [before], P e' := by
      refine ih (fun e' he' => hhead e' ?_)
      rw [List.head?_append, he']
      rfl
    intro e' he'
    rcases List.mem_append.mp he' with he' | he'
    · exact hinit e' he'
    · obtain rfl := List.mem_singleton.mp he'
      -- the edge leaves the node that the edge before it led to
      have hbefore : (init ++ [before])[init.length]? = some before := List.getElem?_concat_length
      have htarget := (path.link hbefore).2
      have hlen := path.length_nodes
      rw [List.length_append, List.length_singleton] at hlen
      have hlast := last
      rw [List.getLast?_eq_getElem?, hlen, Nat.add_sub_cancel, htarget] at hlast
      have hroot : src e' ≠ root := by
        intro heq
        rw [heq] at last
        exact path.getLast?_ne_root (by simp) last
      exact hnext before e' (hinit before (by simp)) edge (Option.some.inj hlast).symm hroot

/-- Prefixes of simple paths are simple paths. -/
theorem take (h : SimplePath src tgt E root ns es) (k : Nat) (hk : k ≤ es.length) :
    SimplePath src tgt E root (ns.take (k + 1)) (es.take k) := by
  induction h with
  | root =>
    obtain rfl : k = 0 := Nat.le_zero.mp hk
    exact SimplePath.root
  | @snoc ns es e path last edge fresh ih =>
    have hlen := path.length_nodes
    rw [List.length_append, List.length_singleton] at hk
    rcases Nat.le_succ_iff.mp hk with hle | rfl
    · rw [List.take_append_of_le_length (by omega), List.take_append_of_le_length hle]
      exact ih hle
    · rw [List.take_of_length_le (by simp [hlen]), List.take_of_length_le (by simp)]
      exact path.snoc last edge fresh

/-- Where no two selected edges leave one node, the shorter of two paths is the start of the
    other. -/
theorem prefix_of_length_le {ns' : List ν} {es' : List ε}
    (hsource : ∀ e e', E e → E e' → src e = src e' → e = e')
    (h : SimplePath src tgt E root ns es) (h' : SimplePath src tgt E root ns' es')
    (hle : es.length ≤ es'.length) : es <+: es' := by
  induction h with
  | root => exact List.nil_prefix
  | @snoc ns es e path last edge _ ih =>
    rw [List.length_append, List.length_singleton] at hle
    obtain ⟨rest, rfl⟩ := ih (by omega)
    cases rest with
    | nil =>
      rw [List.append_nil] at hle
      omega
    | cons e' rest =>
      -- the paths are at one node, where they can only take one edge
      have hget : (es ++ e' :: rest)[es.length]? = some e' := by simp
      have hnode := (h'.link hget).1
      have hlen := path.length_nodes
      rw [h'.nodes_eq, List.map_append, ← List.cons_append, ← path.nodes_eq,
        List.getElem?_append_left (by omega)] at hnode
      rw [List.getLast?_eq_getElem?, hlen, Nat.add_sub_cancel, hnode] at last
      have hmem : E e' := h'.edges_mem e' (by simp)
      rw [hsource e e' edge hmem (Option.some.inj last).symm]
      exact ⟨rest, by simp⟩

/-- Every node of a simple path is where some simple path ends. -/
theorem exists_ending_at (h : SimplePath src tgt E root ns es) {v : ν} (hv : v ∈ ns) :
    ∃ ns' es', SimplePath src tgt E root ns' es' ∧ ns'.getLast? = some v := by
  induction h with
  | root =>
    obtain rfl := List.mem_singleton.mp hv
    exact ⟨_, _, SimplePath.root, rfl⟩
  | snoc path last edge fresh ih =>
    rcases List.mem_append.mp hv with hv | hv
    · exact ih hv
    · obtain rfl := List.mem_singleton.mp hv
      exact ⟨_, _, path.snoc last edge fresh, by simp⟩

/-- Every node of a simple path is reachable from its root. -/
theorem reachable (h : SimplePath src tgt E root ns es) :
    ∀ v ∈ ns, ReflTransGen (EdgeStep src tgt E) root v := by
  induction h with
  | root =>
    intro v hv
    obtain rfl := List.mem_singleton.mp hv
    exact ReflTransGen.refl
  | @snoc ns es e path last edge fresh ih =>
    intro v hv
    rcases List.mem_append.mp hv with hv | hv
    · exact ih v hv
    · obtain rfl := List.mem_singleton.mp hv
      exact (ih (src e) (List.mem_of_getLast? last)).tail ⟨e, edge, rfl, rfl⟩

end SimplePath

/-- **Path shortening.** Reachability is the existence of a simple path. -/
theorem reachable_iff_simplePath {v : ν} :
    ReflTransGen (EdgeStep src tgt E) root v ↔
      ∃ ns es, SimplePath src tgt E root ns es ∧ ns.getLast? = some v := by
  classical
  constructor
  · intro h
    induction h with
    | refl => exact ⟨_, _, SimplePath.root, rfl⟩
    | tail _ hstep ih =>
      obtain ⟨e, edge, rfl, rfl⟩ := hstep
      obtain ⟨ns, es, path, last⟩ := ih
      by_cases fresh : tgt e ∈ ns
      · exact path.exists_ending_at fresh
      · exact ⟨_, _, path.snoc last edge fresh, by simp⟩
  · rintro ⟨ns, es, path, last⟩
    exact path.reachable v (List.mem_of_getLast? last)

end Rationale.Library
