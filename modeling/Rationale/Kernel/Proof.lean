import Rationale.Kernel.Rules
import Rationale.Library.SortUniq

namespace Rationale.Kernel

open Std Rationale.Library

/-!
# Kernel proofs — path order, maximal paths and proof results

`ocaml/lib/proof.ml`.  A `Path` carries the fact that it has a node, so the `List.hd (List.rev
node_ids)` of the traversal is the total `Path.lastId`.

* `comparePaths` — the canonical order of paths, a lawful three-way comparison;
* `maximalPaths` — drops every path that another, longer one extends;
* `established`, `incomplete`, `conflicted` — the three shapes of a proof result.
-/

/-- A route through the evidence: its node identifiers and its edge identifiers. -/
@[ext] structure Path where
  nodeIds : List String
  edgeIds : List String
  nodeIds_ne : nodeIds ≠ []
  deriving DecidableEq

/-- `List.hd (List.rev path.node_ids)`. -/
def Path.lastId (path : Path) : String := path.nodeIds.getLast path.nodeIds_ne

theorem Path.getLast?_nodeIds (path : Path) : path.nodeIds.getLast? = some path.lastId :=
  List.getLast?_eq_some_getLast path.nodeIds_ne

/-- Shorter paths first, then edge identifiers, then node identifiers. -/
def comparePaths : Path → Path → Ordering :=
  compareLex (compareOn fun path => path.edgeIds.length)
    (compareLex (compareOn Path.edgeIds) (compareOn Path.nodeIds))

instance : TransCmp comparePaths :=
  inferInstanceAs (TransCmp (compareLex _ (compareLex _ _)))

instance : LawfulEqCmp comparePaths where
  eq_of_compare {left right} h := by
    simp only [comparePaths, compareLex, compareOn, Ordering.then_eq_eq,
      Std.compare_eq_iff_eq] at h
    exact Path.ext h.2.2 h.2.1

/-- `List.sort_uniq compare_conflicts`. -/
def normalizeConflicts (conflicts : List Conflict) : List Conflict :=
  sortUniq compareConflicts conflicts

def isPrefix : List String → List String → Bool
  | [], _ => true
  | _, [] => false
  | leftHead :: leftTail, rightHead :: rightTail =>
      leftHead == rightHead && isPrefix leftTail rightTail

@[simp] theorem isPrefix_iff {left right : List String} :
    isPrefix left right = true ↔ left <+: right := by
  fun_induction isPrefix left right with
  | case1 => simp
  | case2 left hne => cases left <;> simp_all
  | case3 l ls r rs ih => simp [ih, List.cons_prefix_cons]

/-- Whether `other` is a longer path that starts with `candidate`. -/
def extendsPath (candidate other : Path) : Bool :=
  decide (other.edgeIds.length > candidate.edgeIds.length)
    && isPrefix candidate.nodeIds other.nodeIds
    && isPrefix candidate.edgeIds other.edgeIds

/-- The paths that no other path of the list extends. -/
def maximalPaths (paths : List Path) : List Path :=
  paths.filter fun candidate => !(paths.any fun other => extendsPath candidate other)

/-- The proof chain reported for one path. -/
def proofChain (path : Path) : ProofChain where
  nodeIds := path.nodeIds
  edgeIds := path.edgeIds
  ruleIds := ["edge.current", "path.admissible", "anchor.current"]

def established (paths : List Path) : ProofResult where
  verdict := .established
  proofChains := (sortUniq comparePaths (maximalPaths paths)).map proofChain
  gaps := []
  conflicts := []

def incomplete (path : Path) (node : EvidenceNode) : ProofResult where
  verdict := if path.edgeIds = [] then .notEstablished else .partialProof
  proofChains := []
  gaps := [gapFor node]
  conflicts := []

def conflicted (conflicts : List Conflict) : ProofResult where
  verdict := .conflicted
  proofChains := []
  gaps := []
  conflicts := normalizeConflicts conflicts

theorem extendsPath_iff {candidate other : Path} :
    extendsPath candidate other = true ↔
      candidate.edgeIds.length < other.edgeIds.length ∧ candidate.nodeIds <+: other.nodeIds ∧
        candidate.edgeIds <+: other.edgeIds := by
  simp [extendsPath, and_assoc]

theorem mem_maximalPaths {paths : List Path} {path : Path} :
    path ∈ maximalPaths paths ↔
      path ∈ paths ∧ ∀ other ∈ paths, ¬ extendsPath path other = true := by
  simp [maximalPaths]

end Rationale.Kernel
