import Mathlib.Data.List.Induction
import Rationale.Git.Evidence
import Rationale.Git.Path

namespace Rationale.Git

open Rationale.Library

/-!
# Bounded history

`commit_history` and `path_history` of `crates/rationale-git/src/local.rs`.  A revision walk is the
list of its commits, each with its differences to every parent.

* `LocalGitResolver.commitHistory`, `LocalGitResolver.pathHistory` — the two loops;
* `Known`, `matching` — the paths known at a point of the walk, and the commits that touch one;
* `pathHistory_eq` — the result is made of the first matching commits within the cap.

Both loops are bounded by the resolver's limit.  `commit_history` asks whether there is more before
it stops at the limit (`commitHistory_eq`), `path_history` does not (`pathHistory_complete_iff`).
-/

/-! ### Walks -/

/-- `git2::Delta`. -/
inductive DeltaStatus where
  | unmodified
  | added
  | deleted
  | modified
  | renamed
  | copied
  | ignored
  | untracked
  | typechange
  | unreadable
  | conflicted
  deriving DecidableEq, Repr

/-- One difference between the tree of a parent and the tree of the commit. -/
structure Delta where
  status : DeltaStatus
  oldFile : Option (List OsUnit)
  newFile : Option (List OsUnit)
  deriving DecidableEq, Repr

/-- A commit of a walk, with its differences to each parent, or to no tree when it has none. -/
structure WalkedCommit where
  commit : CommitEvidence
  comparisons : List (List Delta)

/-- A path change with what was found out about the change. -/
structure WalkedChange extends PathChange where
  /-- The older path, when the change is a rename. -/
  renamedFrom : Option String
  deleted : Bool
  deriving DecidableEq

structure LocalGitResolver where
  historyLimit : Nat
  limit_pos : 1 ≤ historyLimit
  /-- Whether the repository has a file `shallow`. -/
  shallow : Bool

namespace LocalGitResolver

def discover (shallow : Bool) : LocalGitResolver := ⟨1024, by decide, shallow⟩

def withHistoryLimit (resolver : LocalGitResolver) (historyLimit : Nat) : LocalGitResolver :=
  { resolver with historyLimit := max historyLimit 1, limit_pos := Nat.le_max_right _ _ }

end LocalGitResolver

def maxWalkedCommits : Nat := 100000

/-! ### The loops -/

/-- The loop of `commit_history`. -/
def commitHistoryLoop (limit : Nat) (complete : Bool) (commits : List CommitEvidence) :
    List WalkedCommit → CommitHistory
  | [] => ⟨commits, complete⟩
  | commit :: walk =>
    if commits.length ≥ limit then ⟨commits, false⟩
    else commitHistoryLoop limit complete (commits ++ [commit.commit]) walk

/-- What `path_history` keeps: the known paths of the walk, and what it finds in one commit. -/
structure CommitScan where
  known : List (List OsUnit)
  matchedPath : Option (List OsUnit)
  renamedFrom : Option String
  deleted : Bool
  deriving DecidableEq

def Delta.relevant (known : List (List OsUnit)) (delta : Delta) : Bool :=
  delta.oldFile.any (known.contains ·) || delta.newFile.any (known.contains ·)

/-- The body of the loop over deltas. -/
def visitDelta (scan : CommitScan) (delta : Delta) : Except String CommitScan :=
  if !delta.relevant scan.known then .ok scan
  else do
    let scan ← match delta.status, delta.oldFile with
      | .renamed, some oldPath => do
        let renamedFrom ← pathString oldPath
        pure { scan with known := scan.known.insert oldPath, renamedFrom := some renamedFrom }
      | _, _ => pure scan
    return { scan with
      deleted := scan.deleted || delta.status = .deleted
      matchedPath := delta.newFile.or delta.oldFile }

/-- The loop of `path_history`. -/
def pathHistoryLoop (limit : Nat) (complete : Bool) (walked : Nat) (known : List (List OsUnit))
    (changes : List WalkedChange) : List WalkedCommit → Except String (List WalkedChange × Bool)
  | [] => .ok (changes, complete)
  | commit :: walk =>
    if walked ≥ maxWalkedCommits then .ok (changes, false)
    else do
      let scan ← commit.comparisons.foldlM (fun scan deltas => deltas.foldlM visitDelta scan)
        ⟨known, none, none, false⟩
      match scan.matchedPath with
      | none => pathHistoryLoop limit complete (walked + 1) scan.known changes walk
      | some path => do
        let path ← pathString path
        let changes := changes ++ [⟨⟨commit.commit, path⟩, scan.renamedFrom, scan.deleted⟩]
        if changes.length ≥ limit then .ok (changes, false)
        else pathHistoryLoop limit complete (walked + 1) scan.known changes walk

namespace LocalGitResolver

/-- The walk starts at the head. -/
def commitHistory (resolver : LocalGitResolver) (walk : List WalkedCommit) : CommitHistory :=
  commitHistoryLoop resolver.historyLimit (!resolver.shallow) [] walk

/-- The walk starts at the commit of the target. -/
def pathHistory (resolver : LocalGitResolver) (initialPath : List OsUnit)
    (walk : List WalkedCommit) : Except String (List WalkedChange × Bool) :=
  pathHistoryLoop resolver.historyLimit (!resolver.shallow) 0 [initialPath] [] walk

end LocalGitResolver

/-! ### Known paths -/

def WalkedCommit.deltas (commit : WalkedCommit) : List Delta := commit.comparisons.flatten

/-- The path that a rename leaves behind. -/
def Delta.renamedPath (delta : Delta) : Option (List OsUnit) :=
  if delta.status = .renamed then delta.oldFile else none

/-- The paths known after some deltas of a walk: the initial path, and the old path of every rename
    of a path that was known before it. -/
inductive Known (initialPath : List OsUnit) : List Delta → List OsUnit → Prop where
  | initial (deltas : List Delta) : Known initialPath deltas initialPath
  | renamed {before after : List Delta} {delta : Delta} {path oldPath : List OsUnit}
      (hknown : Known initialPath before path)
      (htouches : delta.oldFile = some path ∨ delta.newFile = some path)
      (hrenamed : delta.renamedPath = some oldPath) :
      Known initialPath (before ++ delta :: after) oldPath

/-- The delta touches a path that is known after the deltas before it. -/
def Touches (initialPath : List OsUnit) (before : List Delta) (delta : Delta) : Prop :=
  ∃ path, Known initialPath before path ∧ (delta.oldFile = some path ∨ delta.newFile = some path)

section Known

variable {initialPath path : List OsUnit} {before deltas : List Delta} {delta : Delta}

theorem Known.append (h : Known initialPath before path) (after : List Delta) :
    Known initialPath (before ++ after) path := by
  cases h with
  | initial => exact .initial _
  | renamed hknown htouches hrenamed =>
    rw [List.append_assoc]
    exact .renamed hknown htouches hrenamed

/-- What one more delta makes known. -/
theorem known_append_singleton :
    Known initialPath (before ++ [delta]) path ↔
      Known initialPath before path ∨
        Touches initialPath before delta ∧ delta.renamedPath = some path := by
  constructor
  · intro h
    generalize hdeltas : before ++ [delta] = deltas at h
    cases h with
    | initial => exact Or.inl (.initial _)
    | @renamed before' after delta' path' _ hknown htouches hrenamed =>
      rcases List.eq_nil_or_concat after with rfl | ⟨after, last, rfl⟩
      · obtain ⟨rfl, hdelta⟩ := List.append_inj' hdeltas rfl
        obtain rfl := (List.cons.inj hdelta).1
        exact Or.inr ⟨⟨path', hknown, htouches⟩, hrenamed⟩
      · rw [List.concat_eq_append, ← List.cons_append, ← List.append_assoc] at hdeltas
        obtain ⟨rfl, -⟩ := List.append_inj' hdeltas rfl
        exact Or.inl (.renamed hknown htouches hrenamed)
  · rintro (h | ⟨⟨path', hknown, htouches⟩, hrenamed⟩)
    · exact h.append [delta]
    · exact .renamed hknown htouches hrenamed

/-- The known paths as the code keeps them. -/
def learn (known : List (List OsUnit)) (delta : Delta) : List (List OsUnit) :=
  match delta.renamedPath with
  | some oldPath => if delta.relevant known then known.insert oldPath else known
  | none => known

theorem relevant_iff {known : List (List OsUnit)} :
    delta.relevant known = true ↔
      ∃ path ∈ known, delta.oldFile = some path ∨ delta.newFile = some path := by
  have hany : ∀ file : Option (List OsUnit),
      file.any (known.contains ·) = true ↔ ∃ path ∈ known, file = some path := by
    intro file
    cases file with
    | none => simp
    | some path => simp
  rw [Delta.relevant, Bool.or_eq_true, hany, hany]
  simp only [and_or_left, exists_or]

theorem mem_learn_iff {known : List (List OsUnit)} :
    path ∈ learn known delta ↔
      path ∈ known ∨ delta.relevant known = true ∧ delta.renamedPath = some path := by
  unfold learn
  cases delta.renamedPath with
  | none => simp
  | some oldPath =>
    by_cases hrelevant : delta.relevant known = true
    · simp [hrelevant, or_comm, eq_comm]
    · simp [hrelevant]

/-- **The code knows the known paths.** -/
theorem mem_foldl_learn_iff :
    path ∈ deltas.foldl learn [initialPath] ↔ Known initialPath deltas path := by
  induction deltas using List.reverseRecOn generalizing path with
  | nil =>
    constructor
    · intro h
      obtain rfl := List.mem_singleton.mp h
      exact .initial []
    · intro h
      generalize hnil : ([] : List Delta) = deltas at h
      cases h with
      | initial =>
        subst hnil
        exact List.mem_singleton_self _
      | renamed => simp at hnil
  | append_singleton before delta ih =>
    rw [List.foldl_concat, mem_learn_iff, relevant_iff, known_append_singleton, ih]
    simp only [ih, Touches]

theorem relevant_foldl_learn_iff :
    delta.relevant (before.foldl learn [initialPath]) = true ↔
      Touches initialPath before delta := by
  rw [relevant_iff]
  simp only [mem_foldl_learn_iff, Touches]

instance : Decidable (Touches initialPath before delta) :=
  decidable_of_iff _ relevant_foldl_learn_iff

end Known

/-! ### Matching commits -/

/-- The deltas that touch a path known at their point of the walk. -/
def relevantFrom (initialPath : List OsUnit) : List Delta → List Delta → List Delta
  | _, [] => []
  | before, delta :: deltas =>
    if Touches initialPath before delta then
      delta :: relevantFrom initialPath (before ++ [delta]) deltas
    else relevantFrom initialPath (before ++ [delta]) deltas

/-- A commit of the walk, with the deltas that make it a matching one. -/
structure PathMatch where
  commit : WalkedCommit
  deltas : List Delta

/-- The matching commits, after the deltas `before` of the commits before them. -/
def matchingFrom (initialPath : List OsUnit) : List Delta → List WalkedCommit → List PathMatch
  | _, [] => []
  | before, commit :: walk =>
    let rest := matchingFrom initialPath (before ++ commit.deltas) walk
    if relevantFrom initialPath before commit.deltas = [] then rest
    else ⟨commit, relevantFrom initialPath before commit.deltas⟩ :: rest

/-- **The commits of the walk that touch a path known at that point**, in the order of the walk. -/
def matching (initialPath : List OsUnit) (walk : List WalkedCommit) : List PathMatch :=
  matchingFrom initialPath [] walk

/-- The newer path of a delta, if it has one. -/
def Delta.path (delta : Delta) : Option (List OsUnit) := delta.newFile.or delta.oldFile

/-- What the last relevant deltas say about the change. -/
def PathMatch.change (found : PathMatch) : Except String WalkedChange := do
  let renamed ← (found.deltas.filterMap Delta.renamedPath).mapM pathString
  let path ← pathString ((found.deltas.filterMap Delta.path).getLast?.getD [])
  return ⟨⟨found.commit.commit, path⟩, renamed.getLast?,
    found.deltas.any fun delta => delta.status = .deleted⟩

section Matching

variable {initialPath : List OsUnit} {before : List Delta}

/-- A commit matches iff one of its deltas touches a path known before that delta. -/
theorem relevantFrom_ne_nil_iff {deltas : List Delta} :
    relevantFrom initialPath before deltas ≠ [] ↔
      ∃ earlier delta later, deltas = earlier ++ delta :: later ∧
        Touches initialPath (before ++ earlier) delta := by
  induction deltas generalizing before with
  | nil => simp [relevantFrom]
  | cons delta deltas ih =>
    rw [relevantFrom]
    by_cases htouches : Touches initialPath before delta
    · rw [if_pos htouches]
      refine iff_of_true (List.cons_ne_nil _ _) ⟨[], delta, deltas, rfl, ?_⟩
      rwa [List.append_nil]
    · rw [if_neg htouches, ih]
      constructor
      · rintro ⟨earlier, delta', later, rfl, h⟩
        refine ⟨delta :: earlier, delta', later, rfl, ?_⟩
        rwa [List.append_assoc] at h
      · rintro ⟨earlier, delta', later, hsplit, h⟩
        cases earlier with
        | nil =>
          obtain ⟨rfl, -⟩ := List.cons.inj hsplit
          rw [List.append_nil] at h
          exact absurd h htouches
        | cons first earlier =>
          obtain ⟨rfl, rfl⟩ := List.cons.inj hsplit
          refine ⟨earlier, delta', later, rfl, ?_⟩
          rwa [List.append_assoc]

/-- A relevant delta has a path. -/
theorem exists_path_of_touches {delta : Delta} (h : Touches initialPath before delta) :
    ∃ path, delta.path = some path := by
  obtain ⟨path, -, hold | hnew⟩ := h
  · unfold Delta.path
    rw [hold]
    cases delta.newFile with
    | none => exact ⟨path, rfl⟩
    | some newPath => exact ⟨newPath, rfl⟩
  · exact ⟨path, by rw [Delta.path, hnew]; rfl⟩

theorem touches_of_mem_relevantFrom {deltas : List Delta} {delta : Delta}
    (h : delta ∈ relevantFrom initialPath before deltas) :
    ∃ before', Touches initialPath before' delta := by
  induction deltas generalizing before with
  | nil => exact absurd h List.not_mem_nil
  | cons first deltas ih =>
    rw [relevantFrom] at h
    split at h
    · rename_i htouches
      obtain rfl | h := List.mem_cons.mp h
      · exact ⟨before, htouches⟩
      · exact ih h
    · exact ih h

/-- A matching commit has a path to show. -/
theorem exists_matchedPath {deltas : List Delta}
    (h : relevantFrom initialPath before deltas ≠ []) :
    ∃ path, ((relevantFrom initialPath before deltas).filterMap Delta.path).getLast? =
      some path := by
  have hne : (relevantFrom initialPath before deltas).filterMap Delta.path ≠ [] := by
    obtain ⟨delta, hdelta⟩ := List.exists_mem_of_ne_nil _ h
    obtain ⟨before', htouches⟩ := touches_of_mem_relevantFrom hdelta
    obtain ⟨path, hpath⟩ := exists_path_of_touches htouches
    exact List.ne_nil_of_mem (List.mem_filterMap.mpr ⟨delta, hdelta, hpath⟩)
  exact ⟨_, List.getLast?_eq_some_getLast hne⟩

theorem filterMap_cons_eq_append {α β : Type} (f : α → Option β) (a : α) (l : List α) :
    (a :: l).filterMap f = (f a).toList ++ l.filterMap f := by
  rw [List.filterMap_cons]
  cases f a <;> rfl

/-- One relevant delta. -/
theorem visitDelta_of_touches {scan : CommitScan} {delta : Delta}
    (hrelevant : delta.relevant scan.known = true) :
    visitDelta scan delta = do
      let renamed ← delta.renamedPath.toList.mapM pathString
      return { known := learn scan.known delta
               matchedPath := delta.path
               renamedFrom := renamed.getLast?.or scan.renamedFrom
               deleted := scan.deleted || delta.status = .deleted } := by
  unfold visitDelta
  rw [hrelevant]
  obtain ⟨status, oldFile, newFile⟩ := delta
  by_cases hrenamed : status = .renamed
  · subst hrenamed
    cases oldFile with
    | none => rfl
    | some oldPath =>
      have hlearn : learn scan.known ⟨.renamed, some oldPath, newFile⟩ = scan.known.insert oldPath :=
        if_pos hrelevant
      rw [hlearn]
      simp [Delta.renamedPath, Delta.path]
  · -- no rename, so nothing is learned
    have hnone : (⟨status, oldFile, newFile⟩ : Delta).renamedPath = none := if_neg hrenamed
    have hlearn : learn scan.known ⟨status, oldFile, newFile⟩ = scan.known := by
      unfold learn
      rw [hnone]
    rw [hnone, hlearn]
    cases status <;> first | rfl | exact absurd rfl hrenamed

theorem visitDelta_of_not_relevant {scan : CommitScan} {delta : Delta}
    (hrelevant : delta.relevant scan.known ≠ true) :
    visitDelta scan delta = .ok scan ∧ learn scan.known delta = scan.known := by
  refine ⟨if_pos (by simpa using hrelevant), ?_⟩
  unfold learn
  cases delta.renamedPath with
  | none => rfl
  | some oldPath => exact if_neg hrelevant

/-- **The deltas of a commit**: the relevant ones decide, the last of them about the paths. -/
theorem foldlM_visitDelta {deltas : List Delta} {scan : CommitScan}
    (hknown : scan.known = before.foldl learn [initialPath]) :
    deltas.foldlM visitDelta scan = do
      let renamed ← ((relevantFrom initialPath before deltas).filterMap
        Delta.renamedPath).mapM pathString
      return { known := (before ++ deltas).foldl learn [initialPath]
               matchedPath := ((relevantFrom initialPath before deltas).filterMap
                 Delta.path).getLast?.or scan.matchedPath
               renamedFrom := renamed.getLast?.or scan.renamedFrom
               deleted := scan.deleted || (relevantFrom initialPath before deltas).any
                 fun delta => delta.status = .deleted } := by
  induction deltas generalizing before scan with
  | nil => simp [relevantFrom, ← hknown]
  | cons delta deltas ih =>
    have happend : before ++ delta :: deltas = before ++ [delta] ++ deltas := by simp
    have hnext : learn scan.known delta = (before ++ [delta]).foldl learn [initialPath] := by
      rw [List.foldl_concat, hknown]
    rw [List.foldlM_cons, relevantFrom, happend]
    by_cases htouches : Touches initialPath before delta
    · have hrelevant : delta.relevant scan.known = true := by
        rw [hknown]
        exact relevant_foldl_learn_iff.mpr htouches
      -- the last relevant delta shows its path: a later one has the last word
      obtain ⟨path, hpath⟩ := exists_path_of_touches htouches
      rw [if_pos htouches, visitDelta_of_touches hrelevant, filterMap_cons_eq_append,
        filterMap_cons_eq_append, List.mapM_append, List.getLast?_append, hpath]
      simp only [bind_assoc, pure_bind, List.any_cons]
      rw [hnext]
      congr 1
      funext renamed
      rw [ih rfl]
      congr 1
      funext more
      simp [List.getLast?_append, Option.or_assoc, Bool.or_assoc]
    · have hrelevant : delta.relevant scan.known ≠ true := by
        rw [hknown, Ne, relevant_foldl_learn_iff]
        exact htouches
      obtain ⟨hvisit, hlearn⟩ := visitDelta_of_not_relevant hrelevant
      rw [if_neg htouches, hvisit]
      exact ih (hlearn ▸ hnext)

/-- The deltas to every parent, one after the other. -/
theorem foldlM_comparisons (comparisons : List (List Delta)) (scan : CommitScan) :
    comparisons.foldlM (fun scan deltas => deltas.foldlM visitDelta scan) scan =
      comparisons.flatten.foldlM visitDelta scan := by
  induction comparisons generalizing scan with
  | nil => rfl
  | cons deltas comparisons ih =>
    rw [List.foldlM_cons, List.flatten_cons, List.foldlM_append]
    congr 1
    funext scan
    exact ih scan

/-! ### The loops -/

/-- **The walk of `path_history`**: from the state after some commits, the changes of the next
    matching ones within the cap, up to the limit. -/
theorem pathHistoryLoop_eq {limit walked : Nat} {changes : List WalkedChange} {complete : Bool}
    {walk : List WalkedCommit} (hlimit : changes.length < limit) :
    pathHistoryLoop limit complete walked (before.foldl learn [initialPath]) changes walk = do
      let found := matchingFrom initialPath before (walk.take (maxWalkedCommits - walked))
      let more ← (found.take (limit - changes.length)).mapM PathMatch.change
      return (changes ++ more, complete && decide (changes.length + found.length < limit) &&
        decide (walk.length ≤ maxWalkedCommits - walked)) := by
  induction walk generalizing before walked changes with
  | nil =>
    simp [pathHistoryLoop, matchingFrom, hlimit]
    rfl
  | cons commit walk ih =>
    rw [pathHistoryLoop]
    by_cases hcap : walked ≥ maxWalkedCommits
    · -- The cap: nothing of the rest is examined.
      have hzero : maxWalkedCommits - walked = 0 := by omega
      rw [if_pos hcap, hzero]
      simp [matchingFrom]
      rfl
    · have htake : (commit :: walk).take (maxWalkedCommits - walked) =
          commit :: walk.take (maxWalkedCommits - (walked + 1)) := by
        have hsucc : maxWalkedCommits - walked = maxWalkedCommits - (walked + 1) + 1 := by omega
        rw [hsucc, List.take_succ_cons]
      have hlength : (commit :: walk).length ≤ maxWalkedCommits - walked ↔
          walk.length ≤ maxWalkedCommits - (walked + 1) := by
        rw [List.length_cons]
        omega
      rw [if_neg hcap, foldlM_comparisons, htake, matchingFrom]
      show (commit.deltas.foldlM visitDelta _ >>= _) = _
      rw [foldlM_visitDelta rfl]
      simp only [hlength, bind_assoc, pure_bind, Option.or_none, Bool.false_or]
      by_cases hmatch : relevantFrom initialPath before commit.deltas = []
      · -- Not a matching commit.
        rw [hmatch, if_pos rfl]
        exact ih hlimit
      · -- A matching commit: the limit is tested behind it.
        obtain ⟨path, hpath⟩ := exists_matchedPath hmatch
        have hsucc : limit - changes.length = limit - (changes.length + 1) + 1 := by omega
        rw [if_neg hmatch, hsucc, List.take_succ_cons, List.mapM_cons, PathMatch.change]
        simp only [hpath, bind_assoc, pure_bind, Option.getD_some, List.length_append,
          List.length_cons, List.length_nil, Nat.zero_add]
        congr 1
        funext renamed
        congr 1
        funext path
        by_cases hreached : changes.length + 1 ≥ limit
        · -- It is reached, whether or not another commit matches.
          have hzero : limit - (changes.length + 1) = 0 := by omega
          have hcount : ¬ changes.length + ((matchingFrom initialPath (before ++ commit.deltas)
              (walk.take (maxWalkedCommits - (walked + 1)))).length + 1) < limit := by omega
          rw [if_pos hreached, hzero, List.take_zero, List.mapM_nil]
          simp [hcount]
          rfl
        · have hnext : (changes ++ [(⟨⟨commit.commit, path⟩, renamed.getLast?,
              (relevantFrom initialPath before commit.deltas).any fun delta =>
                delta.status = .deleted⟩ : WalkedChange)]).length < limit := by
            rw [List.length_append, List.length_singleton]
            omega
          rw [if_neg hreached, ih hnext]
          simp [Nat.add_assoc, Nat.add_comm 1]

/-- **`path_history` shows the first matching commits within the cap.** -/
theorem pathHistory_eq (resolver : LocalGitResolver) (initialPath : List OsUnit)
    (walk : List WalkedCommit) :
    resolver.pathHistory initialPath walk = do
      let found := matching initialPath (walk.take maxWalkedCommits)
      let changes ← (found.take resolver.historyLimit).mapM PathMatch.change
      return (changes, !resolver.shallow && decide (found.length < resolver.historyLimit) &&
        decide (walk.length ≤ maxWalkedCommits)) := by
  have hloop := @pathHistoryLoop_eq initialPath [] resolver.historyLimit 0 [] (!resolver.shallow)
    walk resolver.limit_pos
  simp only [List.length_nil, Nat.sub_zero, Nat.zero_add, List.nil_append] at hloop
  exact hloop

theorem commitHistoryLoop_eq {limit : Nat} {commits : List CommitEvidence} {complete : Bool}
    {walk : List WalkedCommit} (hlimit : commits.length ≤ limit) :
    commitHistoryLoop limit complete commits walk =
      ⟨commits ++ (walk.map (·.commit)).take (limit - commits.length),
        complete && decide (commits.length + walk.length ≤ limit)⟩ := by
  induction walk generalizing commits with
  | nil => simp [commitHistoryLoop, hlimit]
  | cons commit walk ih =>
    rw [commitHistoryLoop]
    by_cases hreached : commits.length ≥ limit
    · -- The limit: there is more.
      have hzero : limit - commits.length = 0 := by omega
      have hmore : ¬ commits.length + (commit :: walk).length ≤ limit := by
        rw [List.length_cons]
        omega
      rw [if_pos hreached, hzero, decide_eq_false hmore, List.take_zero, List.append_nil,
        Bool.and_false]
    · have hsucc : limit - commits.length = limit - (commits.length + 1) + 1 := by omega
      have hnext : (commits ++ [commit.commit]).length ≤ limit := by
        rw [List.length_append, List.length_singleton]
        omega
      rw [if_neg hreached, ih hnext, List.map_cons, hsucc, List.take_succ_cons]
      simp [Nat.add_assoc, Nat.add_comm 1]

/-- **`commit_history` is complete exactly when the walk ends within the limit.** -/
theorem commitHistory_eq (resolver : LocalGitResolver) (walk : List WalkedCommit) :
    resolver.commitHistory walk = ⟨(walk.map (·.commit)).take resolver.historyLimit,
      !resolver.shallow && decide (walk.length ≤ resolver.historyLimit)⟩ := by
  have hloop := @commitHistoryLoop_eq resolver.historyLimit [] (!resolver.shallow) walk
    (Nat.zero_le _)
  simp only [List.length_nil, Nat.sub_zero, Nat.zero_add, List.nil_append] at hloop
  exact hloop

/-! ### Paths that are no texts -/

/-- The paths that the change of a commit shows, or tries to. -/
def PathMatch.shownPaths (found : PathMatch) : List (List OsUnit) :=
  found.deltas.filterMap Delta.renamedPath ++
    [(found.deltas.filterMap Delta.path).getLast?.getD []]

theorem pathString_eq_error {path : List OsUnit} {error : String} :
    pathString path = .error error ↔ toStr path = none ∧ error = "path is not valid UTF-8" := by
  unfold pathString
  cases toStr path with
  | none =>
    constructor
    · intro h
      exact ⟨rfl, (Except.error.inj h).symm⟩
    · rintro ⟨-, rfl⟩
      rfl
  | some text => exact iff_of_false (fun h => nomatch h) (fun h => nomatch h.1)

theorem exists_of_mapM_eq_error {α β : Type} {f : α → Except String β} {l : List α}
    {error : String} (h : l.mapM f = .error error) : ∃ a ∈ l, f a = .error error := by
  induction l with
  | nil => exact nomatch h
  | cons a l ih =>
    rw [List.mapM_cons, bind_eq_error] at h
    rcases h with h | ⟨b, -, h⟩
    · exact ⟨a, List.mem_cons_self, h⟩
    · rcases bind_eq_error.mp h with h | ⟨bs, -, h⟩
      · obtain ⟨a', hmem, h⟩ := ih h
        exact ⟨a', List.mem_cons_of_mem a hmem, h⟩
      · exact nomatch h

theorem change_eq_error {found : PathMatch} {error : String} (h : found.change = .error error) :
    error = "path is not valid UTF-8" ∧ ∃ path ∈ found.shownPaths, toStr path = none := by
  unfold PathMatch.change at h
  rcases bind_eq_error.mp h with h | ⟨renamed, -, h⟩
  · obtain ⟨path, hmem, h⟩ := exists_of_mapM_eq_error h
    obtain ⟨hnone, rfl⟩ := pathString_eq_error.mp h
    exact ⟨rfl, path, List.mem_append_left _ hmem, hnone⟩
  · rcases bind_eq_error.mp h with h | ⟨path, -, h⟩
    · obtain ⟨hnone, rfl⟩ := pathString_eq_error.mp h
      exact ⟨rfl, _, List.mem_append_right _ (List.mem_singleton_self _), hnone⟩
    · exact nomatch h

/-- The changes are those of the commits, in their order. -/
theorem map_commit_of_mapM_change {found : List PathMatch} {changes : List WalkedChange}
    (h : found.mapM PathMatch.change = .ok changes) :
    changes.map (·.commit) = found.map (·.commit.commit) := by
  induction found generalizing changes with
  | nil =>
    obtain rfl := Except.ok.inj h
    rfl
  | cons first found ih =>
    rw [List.mapM_cons] at h
    obtain ⟨change, hchange, h⟩ := bind_eq_ok.mp h
    obtain ⟨rest, hrest, h⟩ := bind_eq_ok.mp h
    obtain rfl := Except.ok.inj h
    obtain ⟨renamed, -, hchange⟩ := bind_eq_ok.mp hchange
    obtain ⟨path, -, hchange⟩ := bind_eq_ok.mp hchange
    obtain rfl := Except.ok.inj hchange
    rw [List.map_cons, List.map_cons, ih hrest]

/-! ### When history is marked incomplete -/

/-- **`path_history` is right about what it leaves out, except at the limit.**  `commit_history`
    returns the first commits up to the limit and is incomplete iff the walk has more.
    `path_history` returns the first matching commits up to the limit, unless one of them has a path
    that is no text; it marks them incomplete iff it left out a matching commit or a commit beyond
    the cap, exactly when the walk is beyond the cap or does not have just as many matching commits
    as the limit allows. -/
theorem pathHistory_complete_iff {resolver : LocalGitResolver} (hfull : resolver.shallow = false)
    (initialPath : List OsUnit) (walk headWalk : List WalkedCommit) :
    let limit := resolver.historyLimit
    let found := (matching initialPath (walk.take maxWalkedCommits)).take limit
    let LeftOut := limit < (matching initialPath walk).length ∨ maxWalkedCommits < walk.length
    resolver.commitHistory headWalk =
      ⟨(headWalk.map (·.commit)).take limit, decide (headWalk.length ≤ limit)⟩ ∧
    (∀ error, resolver.pathHistory initialPath walk = .error error →
      error = "path is not valid UTF-8" ∧
        ∃ matched ∈ found, ∃ path ∈ matched.shownPaths, toStr path = none) ∧
    ∀ changes complete, resolver.pathHistory initialPath walk = .ok (changes, complete) →
      changes.map (·.commit) = found.map (·.commit.commit) ∧
      ((complete = false ↔ LeftOut) ↔
        (matching initialPath walk).length ≠ limit ∨ maxWalkedCommits < walk.length) := by
  intro limit found LeftOut
  refine ⟨?_, fun error h => ?_, fun changes complete h => ?_⟩
  · rw [commitHistory_eq, hfull]
    rfl
  · rw [pathHistory_eq] at h
    rcases bind_eq_error.mp h with h | ⟨changes, -, h⟩
    · obtain ⟨matched, hmem, h⟩ := exists_of_mapM_eq_error h
      obtain ⟨rfl, hpath⟩ := change_eq_error h
      exact ⟨rfl, matched, hmem, hpath⟩
    · exact nomatch h
  · rw [pathHistory_eq] at h
    obtain ⟨changes', hchanges, h⟩ := bind_eq_ok.mp h
    obtain ⟨rfl, rfl⟩ := Prod.mk.inj (Except.ok.inj h)
    refine ⟨map_commit_of_mapM_change hchanges, ?_⟩
    show ((_ && _ && _) = false ↔ limit < _ ∨ _) ↔ _
    by_cases hcap : maxWalkedCommits < walk.length
    · -- The flag is false, and the walk has a commit beyond the cap.
      have hbeyond : ¬ walk.length ≤ maxWalkedCommits := by omega
      simp [hcap, hbeyond]
    · -- The flag tells whether the limit was reached, not whether it was passed.
      have hwithin : walk.length ≤ maxWalkedCommits := by omega
      rw [List.take_of_length_le hwithin]
      simp only [hfull, hcap, hwithin, Bool.not_false, Bool.true_and, decide_true, Bool.and_true,
        decide_eq_false_iff_not, or_false]
      show (¬ _ < limit ↔ limit < _) ↔ _
      omega

end Matching

/-! ### A history as long as the limit -/

/-- A commit with one delta, to its only parent or to no tree. -/
def singleDelta (id : String) (delta : Delta) : WalkedCommit := ⟨⟨id, "", 0, []⟩, [[delta]]⟩

/-- The commit that adds the file. -/
def addsFile : WalkedCommit := singleDelta "1" ⟨.added, none, some (osText "a.md")⟩

def changesFile : WalkedCommit :=
  singleDelta "2" ⟨.modified, some (osText "a.md"), some (osText "a.md")⟩

/-- A resolver of a full repository that shows one change. -/
def oneChange : LocalGitResolver := (LocalGitResolver.discover false).withHistoryLimit 1

set_option maxRecDepth 2000 in
/-- **The whole history of a file is marked incomplete**: its one commit is returned, none is left
    out, and the flag is false. -/
theorem pathHistory_not_complete_addsFile :
    oneChange.pathHistory (osText "a.md") [addsFile] =
        .ok ([⟨⟨addsFile.commit, "a.md"⟩, none, false⟩], false) ∧
      ¬ (oneChange.historyLimit < (matching (osText "a.md") [addsFile]).length ∨
        maxWalkedCommits < [addsFile].length) := by
  decide

set_option maxRecDepth 2000 in
/-- With a second commit, one is left out, and the flag says so. -/
theorem pathHistory_complete_iff_changesFile :
    oneChange.pathHistory (osText "a.md") [changesFile, addsFile] =
        .ok ([⟨⟨changesFile.commit, "a.md"⟩, none, false⟩], false) ∧
      (false = false ↔ oneChange.historyLimit <
          (matching (osText "a.md") [changesFile, addsFile]).length ∨
        maxWalkedCommits < [changesFile, addsFile].length) := by
  have h : oneChange.pathHistory (osText "a.md") [changesFile, addsFile] =
      .ok ([⟨⟨changesFile.commit, "a.md"⟩, none, false⟩], false) := by decide
  have hcomplete := @pathHistory_complete_iff oneChange rfl (osText "a.md")
    [changesFile, addsFile] []
  exact ⟨h, (hcomplete.2.2 _ _ h).2.mpr (by decide)⟩

end Rationale.Git
