import Rationale.Git.Resolve

namespace Rationale.Git

open Rationale.Library

/-!
# Working changes

`working_changes` of `crates/rationale-git/src/local.rs`.  What libgit2 reports of the index and the
working tree is a list of `StatusEntry`.

* `workingChanges` — the changed paths, sorted, without those of the evidence database;
* `workingChanges_eq_ok` — what it returns;
* `workingChanges_eq_nil_iff` — nothing is reported exactly when nothing else changed.
-/

inductive WorkingChangeKind where
  | added
  | modified
  | deleted
  | renamed
  | conflicted
  deriving DecidableEq, Repr

/-- One normalized changed path in the index or working tree. -/
structure WorkingChange where
  path : String
  kind : WorkingChangeKind
  deriving DecidableEq, Repr

/-- An entry of `Statuses`. -/
structure StatusEntry where
  /-- No path, if it is not UTF-8. -/
  path : Option String
  status : List StatusFlag

/-- A path of the directory `.rationale`, where the evidence database is. -/
def isRationalePath (path : String) : Bool :=
  path = ".rationale" || ".rationale/".toList.isPrefixOf path.toList

/-- `path.replace('\\', "/")`. -/
def forwardSlashes (path : String) : String :=
  String.ofList (path.toList.map fun c => if c = '\\' then '/' else c)

def changeKind (status : List StatusFlag) : WorkingChangeKind :=
  if intersects status [.conflicted] then .conflicted
  else if intersects status [.wtDeleted, .indexDeleted] then .deleted
  else if intersects status [.wtRenamed, .indexRenamed] then .renamed
  else if intersects status [.wtNew, .indexNew] then .added
  else .modified

/-- The loop over the entries. -/
def collectChanges (changes : List WorkingChange) :
    List StatusEntry → Except GitEvidenceError (List WorkingChange)
  | [] => .ok changes
  | entry :: statuses =>
    match entry.path with
    | none => .error (.invalidPath "changed path is not valid UTF-8")
    | some path =>
      if isRationalePath path then collectChanges changes statuses
      else collectChanges (changes ++ [⟨forwardSlashes path, changeKind entry.status⟩]) statuses

def workingChanges (statuses : List StatusEntry) : Except GitEvidenceError (List WorkingChange) :=
  (collectChanges [] statuses).map (sortBy (compareOn WorkingChange.path))

/-! ### What is reported -/

/-- The change that an entry is reported as, if it is. -/
def StatusEntry.change? (entry : StatusEntry) : Option WorkingChange :=
  entry.path.bind fun path =>
    if isRationalePath path then none else some ⟨forwardSlashes path, changeKind entry.status⟩

variable {statuses : List StatusEntry} {changes : List WorkingChange}

theorem collectChanges_eq_ok {before : List WorkingChange} :
    collectChanges before statuses = .ok changes ↔ (∀ entry ∈ statuses, entry.path.isSome) ∧
      changes = before ++ statuses.filterMap StatusEntry.change? := by
  induction statuses generalizing before with
  | nil =>
    rw [collectChanges, List.filterMap_nil, List.append_nil]
    exact ⟨fun h => ⟨nofun, (Except.ok.inj h).symm⟩, fun h => congrArg _ h.2.symm⟩
  | cons entry statuses ih =>
    rw [collectChanges, List.forall_mem_cons, List.filterMap_cons, StatusEntry.change?]
    cases entry.path with
    | none => simp
    | some path =>
      show (if _ then _ else _) = _ ↔ _
      rw [Option.bind_some]
      split
      · rw [ih]
        simp
      · rw [ih]
        simp

/-- **Working changes.** Every path has to be UTF-8.  Then each changed path outside `.rationale` is
    reported once, in the order of the paths. -/
theorem workingChanges_eq_ok : workingChanges statuses = .ok changes ↔
    (∀ entry ∈ statuses, entry.path.isSome) ∧
      changes = sortBy (compareOn WorkingChange.path) (statuses.filterMap StatusEntry.change?) := by
  unfold workingChanges
  rw [map_eq_ok]
  simp only [collectChanges_eq_ok, List.nil_append]
  constructor
  · rintro ⟨_, ⟨hpaths, rfl⟩, rfl⟩
    exact ⟨hpaths, rfl⟩
  · rintro ⟨hpaths, rfl⟩
    exact ⟨_, ⟨hpaths, rfl⟩, rfl⟩

theorem workingChanges_eq_nil_iff : workingChanges statuses = .ok [] ↔
    ∀ entry ∈ statuses, ∃ path, entry.path = some path ∧ isRationalePath path = true := by
  rw [workingChanges_eq_ok]
  constructor
  · rintro ⟨hpaths, hnil⟩ entry hentry
    obtain ⟨path, hpath⟩ := Option.isSome_iff_exists.mp (hpaths entry hentry)
    refine ⟨path, hpath, ?_⟩
    by_contra hother
    have hmem : ⟨forwardSlashes path, changeKind entry.status⟩ ∈
        sortBy (compareOn WorkingChange.path) (statuses.filterMap StatusEntry.change?) :=
      mem_sortBy.mpr (List.mem_filterMap.mpr ⟨entry, hentry, by
        simp [StatusEntry.change?, hpath, hother]⟩)
    rw [← hnil] at hmem
    exact absurd hmem List.not_mem_nil
  · intro h
    have hnone : statuses.filterMap StatusEntry.change? = [] := by
      rw [List.filterMap_eq_nil_iff]
      intro entry hentry
      obtain ⟨path, hpath, hinternal⟩ := h entry hentry
      simp [StatusEntry.change?, hpath, hinternal]
    refine ⟨fun entry hentry => ?_, by rw [hnone]; rfl⟩
    obtain ⟨path, hpath, -⟩ := h entry hentry
    rw [hpath]
    rfl

end Rationale.Git
