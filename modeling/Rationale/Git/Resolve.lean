import Rationale.Git.History
import Rationale.Git.References
import Rationale.Git.TargetGrammar

namespace Rationale.Git

open Rationale.Library

/-!
# Resolution of targets

`resolve_target`, `resolve_lines` and what they call, of `crates/rationale-git/src/local.rs`.  The
working tree and libgit2 are other programs: what they answer is a `Worktree`.

* `Worktree.resolveTarget` — the translation, with the text of each error;
* `readHistory_eq` — over commits that can all be read, the history is that of `Git/History`;
* `le_countLines_iff`, `attributed_of_attributions` — what the helpers return;
* `LinesSpec`, `resolveTarget_lines` — resolved lines are lines of a file inside the repository, each
  attributed once to the commit that blame names;
* `Resolved.withoutHistory`, `resolveForProof_eq_ok_of_resolve` — without the history of its path a
  target is resolved to the same evidence.
-/

/-! ### Errors -/

inductive GitEvidenceError where
  | invalidPath (detail : String)
  | pathEscape (path : String)
  | missingPath (path : String)
  | invalidRevision (revision detail : String)
  | lineOutOfRange (path : String) (line lineCount : Nat)
  | workingCopyUnattributed (path : String) (line : Nat)
  | git (detail : String)
  deriving DecidableEq, Repr

def GitEvidenceError.message : GitEvidenceError → String
  | invalidPath detail => s!"invalid repository-relative path: {detail}"
  | pathEscape path => s!"target path escapes the repository through a symlink: {path}"
  | missingPath path => s!"target path does not exist: {path}"
  | invalidRevision revision detail => s!"invalid Git revision {revision}: {detail}"
  | lineOutOfRange path line lineCount => s!"line {line} exceeds {lineCount} lines in {path}"
  | workingCopyUnattributed path line =>
      s!"working-copy line {line} in {path} has no committed attribution"
  | git detail => s!"Git operation failed: {detail}"

/-! ### What Git answers -/

/-- The flags of `git2::Status`. -/
inductive StatusFlag where
  | indexNew
  | indexModified
  | indexDeleted
  | indexRenamed
  | indexTypechange
  | wtNew
  | wtModified
  | wtDeleted
  | wtTypechange
  | wtRenamed
  | ignored
  | conflicted
  deriving DecidableEq, Repr

/-- `Status::intersects`. -/
def intersects (status flags : List StatusFlag) : Bool := status.any (flags.contains ·)

/-- The hunk of a line. -/
structure Hunk where
  finalCommitId : String
  /-- `Oid::is_zero`: no commit has the line. -/
  zero : Bool
  path : Option (List OsUnit)
  deriving DecidableEq, Repr

/-- `Blame::get_line`. -/
abbrev Blame := Nat → Option Hunk

/-- The files that one commit has. -/
abbrev CommitTree := List OsUnit → Option (List UInt8)

/-- An absolute path: the names below the root directory. -/
abbrev Absolute := List (List OsUnit)

/-- A working tree and its repository. -/
structure Worktree where
  /-- The canonical root of the working tree. -/
  root : Absolute
  resolver : LocalGitResolver
  pathExists : Absolute → Bool
  canonicalize : Absolute → Except String Absolute
  isFile : Absolute → Bool
  read : Absolute → Except String (List UInt8)
  /-- `revparse_single` and `peel_to_commit`. -/
  revparse : String → Except String CommitObject
  tree : CommitObject → Except String CommitTree
  statusFile : List OsUnit → Except String (List StatusFlag)
  /-- `blame_file` from a commit, for a range of lines. -/
  blameFile : CommitObject → List OsUnit → Nat → Nat → Except String Blame
  blameBuffer : Blame → List UInt8 → Except String Blame
  /-- The walk from a commit, each commit read or not. -/
  walk : CommitObject → Except String (List (Except String WalkedCommit))

/-! ### Resolved targets -/

inductive TargetState where
  | committed
  | workingCopy
  deriving DecidableEq, Repr

/-- An attribution with the path that blame reports. -/
structure BlamedLine extends LineAttribution where
  originalPath : String
  deriving DecidableEq

structure ResolvedLines where
  repositoryRoot : Absolute
  path : String
  startLine : Nat
  endLine : Nat
  revision : String
  state : TargetState
  introducedBy : List BlamedLine
  changedBy : List WalkedChange
  historyComplete : Bool
  deriving DecidableEq

/-- What a target resolves to. -/
inductive Resolved where
  | commit (repositoryRoot : Absolute) (commit : CommitEvidence)
  | lines (lines : ResolvedLines)

/-- The part of it that the engine reads. -/
def Resolved.target : Resolved → ResolvedTarget
  | .commit _ evidence => .commit evidence
  | .lines found => .lines found.path found.startLine found.endLine found.revision
      (found.introducedBy.map (·.toLineAttribution)) (found.changedBy.map (·.toPathChange))

/-! ### The helpers -/

/-- `slice::split_inclusive`. -/
def splitInclusiveBytes (last : UInt8 → Bool) : List UInt8 → List (List UInt8)
  | [] => []
  | byte :: rest =>
      if last byte then [byte] :: splitInclusiveBytes last rest
      else match splitInclusiveBytes last rest with
      | [] => [[byte]]
      | line :: lines => (byte :: line) :: lines

def lineFeed : UInt8 := 10

def countLines (content : List UInt8) : Nat :=
  if content = [] then 0 else (splitInclusiveBytes (· = lineFeed) content).length

def originalPath (display : String) : Option (List OsUnit) → Except GitEvidenceError String
  | none => .ok display
  | some path => (pathString path).mapError GitEvidenceError.invalidPath

def attribution (blame : Blame) (endLine : Nat) (display : String) (line : Nat) :
    Except GitEvidenceError BlamedLine :=
  match blame line with
  | none => .error (.lineOutOfRange display line (endLine - 1))
  | some hunk =>
    if hunk.zero then .error (.workingCopyUnattributed display line)
    else do
      let path ← originalPath display hunk.path
      return ⟨⟨line, hunk.finalCommitId⟩, path⟩

def attributions (blame : Blame) (startLine endLine : Nat) (display : String) :
    Except GitEvidenceError (List BlamedLine) :=
  (List.range' startLine (endLine + 1 - startLine)).mapM (attribution blame endLine display)

/-- What one commit does to the known paths. -/
def scanCommit (known : List (List OsUnit)) (commit : WalkedCommit) : Except String CommitScan :=
  commit.comparisons.foldlM (fun scan deltas => deltas.foldlM visitDelta scan)
    ⟨known, none, none, false⟩

/-- The loop of `path_history` over a walk that can fail. -/
def readHistoryLoop (limit : Nat) (complete : Bool) (walked : Nat) (known : List (List OsUnit))
    (changes : List WalkedChange) :
    List (Except String WalkedCommit) → Except GitEvidenceError (List WalkedChange × Bool)
  | [] => .ok (changes, complete)
  | commit :: walk =>
    if walked ≥ maxWalkedCommits then .ok (changes, false)
    else do
      let commit ← commit.mapError GitEvidenceError.git
      let scan ← (scanCommit known commit).mapError GitEvidenceError.invalidPath
      match scan.matchedPath with
      | none => readHistoryLoop limit complete (walked + 1) scan.known changes walk
      | some path => do
        let path ← (pathString path).mapError GitEvidenceError.invalidPath
        let changes := changes ++ [⟨⟨commit.commit, path⟩, scan.renamedFrom, scan.deleted⟩]
        if changes.length ≥ limit then .ok (changes, false)
        else readHistoryLoop limit complete (walked + 1) scan.known changes walk

namespace Worktree

variable (worktree : Worktree)

/-- The loop of `ensure_within_root`, over the names in reverse: the path itself, or the first of its
    parents that exists or is the root. -/
def climb : List (List OsUnit) → Absolute
  | [] => []
  | name :: parents =>
    if worktree.pathExists (name :: parents).reverse then (name :: parents).reverse
    else if parents.reverse = worktree.root then worktree.root
    else climb parents

/-- `root.join(relative)`. -/
def absolute (relative : List OsUnit) : Absolute := worktree.root ++ names relative

def ensureWithinRoot (relative : List OsUnit) (display : String) : Except GitEvidenceError Unit := do
  let canonical ←
    (worktree.canonicalize (worktree.climb (worktree.absolute relative).reverse)).mapError GitEvidenceError.git
  if worktree.root.isPrefixOf canonical then .ok () else .error (.pathEscape display)

def resolveCommit (revision : String) : Except GitEvidenceError CommitObject :=
  (worktree.revparse revision).mapError (GitEvidenceError.invalidRevision revision)

def readCommittedBlob (commit : CommitObject) (path : List OsUnit) (display : String) :
    Except GitEvidenceError (List UInt8) := do
  let tree ← (worktree.tree commit).mapError GitEvidenceError.git
  match tree path with
  | some content => .ok content
  | none => .error (.missingPath display)

/-- The content of a working file, and whether it is modified. -/
def readWorkingFile (relative : List OsUnit) (display : String) (startLine : Nat) :
    Except GitEvidenceError (List UInt8 × TargetState) :=
  if !worktree.isFile (worktree.absolute relative) then .error (.missingPath display)
  else do
    let status ← (worktree.statusFile relative).mapError GitEvidenceError.git
    if intersects status [.wtNew, .indexNew] then
      throw (.workingCopyUnattributed display startLine)
    let content ← (worktree.read (worktree.absolute relative)).mapError GitEvidenceError.git
    return (content, if status = [] then .committed else .workingCopy)

/-- The content that a target names, at its revision or in the working tree. -/
def readContent (commit : CommitObject) (relative : List OsUnit) (display : String)
    (startLine : Nat) : Option String → Except GitEvidenceError (List UInt8 × TargetState)
  | some _ => return (← worktree.readCommittedBlob commit relative display, .committed)
  | none => worktree.readWorkingFile relative display startLine

/-- Blame of a range of lines; that of a modified file is adjusted to its content. -/
def blame (commit : CommitObject) (relative : List OsUnit) (startLine endLine : Nat)
    (content : List UInt8) (state : TargetState) : Except GitEvidenceError Blame := do
  let committedBlame ← (worktree.blameFile commit relative startLine endLine).mapError GitEvidenceError.git
  if state = .workingCopy then (worktree.blameBuffer committedBlame content).mapError GitEvidenceError.git
  else return committedBlame

/-- `path_history`. -/
def readHistory (commit : CommitObject) (relative : List OsUnit) :
    Except GitEvidenceError (List WalkedChange × Bool) := do
  let walk ← (worktree.walk commit).mapError GitEvidenceError.git
  readHistoryLoop worktree.resolver.historyLimit (!worktree.resolver.shallow) 0 [relative] [] walk

/-- `resolve_lines` before it reads history: the lines, with the path and the commit to read it
    from. -/
def attributeLines (path : List OsUnit) (startLine endLine : Nat) (revision : Option String) :
    Except GitEvidenceError (List OsUnit × CommitObject × ResolvedLines) := do
  let (relative, normalized) ← (normalizePath path).mapError GitEvidenceError.invalidPath
  worktree.ensureWithinRoot relative normalized
  let commit ← worktree.resolveCommit (revision.getD "HEAD")
  let (content, state) ← worktree.readContent commit relative normalized startLine revision
  let lineCount := countLines content
  if endLine > lineCount then throw (.lineOutOfRange normalized endLine lineCount)
  let blame ← worktree.blame commit relative startLine endLine content state
  let introducedBy ← attributions blame startLine endLine normalized
  return (relative, commit,
    ⟨worktree.root, normalized, startLine, endLine, commit.id, state, introducedBy, [], false⟩)

def resolveLines (path : List OsUnit) (startLine endLine : Nat) (revision : Option String)
    (includeHistory : Bool) : Except GitEvidenceError ResolvedLines := do
  let (relative, commit, lines) ← worktree.attributeLines path startLine endLine revision
  if includeHistory then
    let (changedBy, historyComplete) ← worktree.readHistory commit relative
    return { lines with changedBy, historyComplete }
  else return lines

def resolveTarget (target : TargetSpec) (includeHistory : Bool) :
    Except GitEvidenceError Resolved :=
  match target with
  | .commit revision => do
      let commit ← worktree.resolveCommit revision
      return .commit worktree.root (commitEvidence commit)
  | .lines path startLine endLine revision =>
      return .lines (← worktree.resolveLines (osText path) startLine endLine revision includeHistory)

def resolveForProof (target : TargetSpec) : Except GitEvidenceError Resolved :=
  worktree.resolveTarget target false

def resolve (target : TargetSpec) : Except GitEvidenceError Resolved :=
  worktree.resolveTarget target true

end Worktree

/-! ### What the helpers return -/

/-- Over commits that can all be read, the walk of a target is that of its path. -/
theorem readHistoryLoop_map_ok {limit walked : Nat} {complete : Bool} {known : List (List OsUnit)}
    {changes : List WalkedChange} {walk : List WalkedCommit} :
    readHistoryLoop limit complete walked known changes (walk.map .ok) =
      (pathHistoryLoop limit complete walked known changes walk).mapError .invalidPath := by
  induction walk generalizing walked known changes with
  | nil => rfl
  | cons commit walk ih =>
    rw [List.map_cons, readHistoryLoop, pathHistoryLoop]
    split
    · rfl
    show Except.bind ((scanCommit known commit).mapError _) _ =
      Except.mapError _ (Except.bind (scanCommit known commit) _)
    cases scanCommit known commit with
    | error detail => rfl
    | ok scan =>
      show (match scan.matchedPath with | none => _ | some path => _) = Except.mapError _
        (match scan.matchedPath with | none => _ | some path => _)
      cases scan.matchedPath with
      | none => exact ih
      | some path =>
        show Except.bind ((pathString path).mapError _) _ = Except.mapError _
          (Except.bind (pathString path) _)
        cases pathString path with
        | error detail => rfl
        | ok path =>
          show (if _ then _ else _) = Except.mapError _ (if _ then _ else _)
          split
          · rfl
          · exact ih

section Helpers

variable {content : List UInt8} {byte : UInt8} {line : Nat}

theorem countLines_lineFeed : countLines (lineFeed :: content) = countLines content + 1 := by
  unfold countLines
  rw [if_neg (List.cons_ne_nil _ _), splitInclusiveBytes, if_pos (by simp)]
  cases content with
  | nil => rfl
  | cons byte content => rw [if_neg (List.cons_ne_nil _ _), List.length_cons]

theorem countLines_cons (h : byte ≠ lineFeed) :
    countLines (byte :: content) = max 1 (countLines content) := by
  unfold countLines
  rw [if_neg (List.cons_ne_nil _ _), splitInclusiveBytes, if_neg (by simpa using h)]
  cases content with
  | nil => rfl
  | cons next content =>
    rw [if_neg (List.cons_ne_nil _ _)]
    cases splitInclusiveBytes (· = lineFeed) (next :: content) with
    | nil => rfl
    | cons first rest => simp

/-- The content has a line of this number: something stands behind one line feed less. -/
def HasLine (content : List UInt8) (line : Nat) : Prop :=
  ∃ before after, content = before ++ after ∧ before.count lineFeed + 1 = line ∧ after ≠ []

theorem hasLine_one (h : content ≠ []) : HasLine content 1 := ⟨[], content, rfl, rfl, h⟩

/-- Beyond the first line, a line feed in front is one line more. -/
theorem hasLine_cons (h : 2 ≤ line) : HasLine (byte :: content) line ↔
    HasLine content (if byte = lineFeed then line - 1 else line) := by
  have hcount : ∀ before : List UInt8, (byte :: before).count lineFeed + 1 = line ↔
      before.count lineFeed + 1 = if byte = lineFeed then line - 1 else line := by
    intro before
    rw [List.count_cons]
    by_cases hbyte : byte = lineFeed
    · simp only [hbyte, beq_self_eq_true, if_true]
      omega
    · simp only [hbyte, if_false, beq_iff_eq, Nat.add_zero]
  constructor
  · rintro ⟨before, after, hcontent, hline, hafter⟩
    cases before with
    | nil =>
      rw [List.count_nil] at hline
      omega
    | cons first before =>
      obtain ⟨rfl, hrest⟩ := List.cons.inj hcontent
      exact ⟨before, after, hrest, (hcount before).mp hline, hafter⟩
  · rintro ⟨before, after, rfl, hline, hafter⟩
    exact ⟨byte :: before, after, rfl, (hcount before).mpr hline, hafter⟩

/-- The lines of a content are those up to their number. -/
theorem le_countLines_iff (h : 1 ≤ line) : line ≤ countLines content ↔ HasLine content line := by
  induction content generalizing line with
  | nil =>
    have hzero : countLines [] = 0 := rfl
    rw [hzero]
    refine iff_of_false (by omega) ?_
    rintro ⟨before, after, hcontent, -, hafter⟩
    exact hafter (List.append_eq_nil_iff.mp hcontent.symm).2
  | cons byte content ih =>
    by_cases hone : line = 1
    · subst hone
      refine iff_of_true ?_ (hasLine_one (List.cons_ne_nil _ _))
      by_cases hbyte : byte = lineFeed
      · rw [hbyte, countLines_lineFeed]
        omega
      · rw [countLines_cons hbyte]
        omega
    · rw [hasLine_cons (by omega)]
      by_cases hbyte : byte = lineFeed
      · rw [if_pos hbyte, hbyte, countLines_lineFeed, ← ih (by omega)]
        omega
      · rw [if_neg hbyte, countLines_cons hbyte, ← ih h]
        omega

variable {blame : Blame} {startLine endLine : Nat} {display : String} {lines : List BlamedLine}

/-- Each line once and in order, with the commit that blame names for it. -/
structure Attributed (blame : Blame) (startLine endLine : Nat) (lines : List BlamedLine) : Prop where
  numbers : lines.map (·.line) = List.range' startLine (endLine + 1 - startLine)
  named : ∀ blamed ∈ lines, ∃ hunk, blame blamed.line = some hunk ∧ hunk.zero = false ∧
    blamed.commitId = hunk.finalCommitId

theorem attribution_eq_ok {blamed : BlamedLine}
    (h : attribution blame endLine display line = .ok blamed) :
    blamed.line = line ∧ ∃ hunk, blame line = some hunk ∧ hunk.zero = false ∧
      blamed.commitId = hunk.finalCommitId := by
  unfold attribution at h
  cases hhunk : blame line with
  | none =>
    rw [hhunk] at h
    exact nomatch h
  | some hunk =>
    simp only [hhunk] at h
    cases hzero : hunk.zero with
    | true =>
      rw [hzero] at h
      exact nomatch h
    | false =>
      simp only [hzero, Bool.false_eq_true, if_false] at h
      obtain ⟨path, -, h⟩ := bind_eq_ok.mp h
      rw [← Except.ok.inj h]
      exact ⟨rfl, hunk, rfl, hzero, rfl⟩

theorem attributed_of_attributions (h : attributions blame startLine endLine display = .ok lines) :
    Attributed blame startLine endLine lines := by
  have hall := (mapM_eq_ok.mp h).imp (fun _ _ h => attribution_eq_ok h)
  clear h
  have hboth : lines.map (·.line) = List.range' startLine (endLine + 1 - startLine) ∧
      ∀ blamed ∈ lines, ∃ hunk, blame blamed.line = some hunk ∧ hunk.zero = false ∧
        blamed.commitId = hunk.finalCommitId := by
    generalize List.range' startLine (endLine + 1 - startLine) = numbers at hall
    induction hall with
    | nil => exact ⟨rfl, fun _ h => nomatch h⟩
    | cons hfirst _ ih =>
      obtain ⟨hline, hnamed⟩ := hfirst
      refine ⟨by rw [List.map_cons, hline, ih.1], List.forall_mem_cons.mpr ⟨?_, ih.2⟩⟩
      rw [hline]
      exact hnamed
  exact ⟨hboth.1, hboth.2⟩

end Helpers

section Worktree

variable {worktree : Worktree} {relative : List OsUnit} {display : String} {startLine endLine : Nat}
  {revision : Option String} {commit : CommitObject} {content : List UInt8} {state : TargetState}

/-- A path that exists is not climbed. -/
theorem climb_of_exists {path : Absolute} (h : worktree.pathExists path = true) :
    worktree.climb path.reverse = path := by
  cases hpath : path.reverse with
  | nil => rw [List.reverse_eq_nil_iff.mp hpath, Worktree.climb]
  | cons name parents => rw [Worktree.climb, ← hpath, List.reverse_reverse, if_pos h]

theorem ensureWithinRoot_eq_ok : worktree.ensureWithinRoot relative display = .ok () ↔
    ∃ canonical,
      worktree.canonicalize (worktree.climb (worktree.absolute relative).reverse) = .ok canonical ∧
        worktree.root <+: canonical := by
  unfold Worktree.ensureWithinRoot
  rw [bind_eq_ok]
  refine exists_congr (fun canonical => ?_)
  rw [mapError_eq_ok, ← List.isPrefixOf_iff_prefix]
  refine and_congr_right (fun _ => ?_)
  split
  · next h => exact iff_of_true rfl h
  · next h => exact iff_of_false (fun heq => nomatch heq) h

/-- The content that a target names: that of the file at its revision, or of a working file whose
    canonical path is inside the repository. -/
def Worktree.Holds (worktree : Worktree) (commit : CommitObject) (relative : List OsUnit)
    (content : List UInt8) : Option String → Prop
  | some _ => ∃ tree, worktree.tree commit = .ok tree ∧ tree relative = some content
  | none => worktree.read (worktree.absolute relative) = .ok content ∧
      ∃ canonical, worktree.canonicalize (worktree.absolute relative) = .ok canonical ∧
        worktree.root <+: canonical

theorem holds_of_readContent (hfile : ∀ path, worktree.isFile path = true →
      worktree.pathExists path = true)
    (hroot : worktree.ensureWithinRoot relative display = .ok ())
    (h : worktree.readContent commit relative display startLine revision = .ok (content, state)) :
    worktree.Holds commit relative content revision := by
  cases revision with
  | some revision =>
    obtain ⟨found, hblob, h⟩ := bind_eq_ok.mp h
    obtain ⟨rfl, -⟩ := Prod.mk.inj (Except.ok.inj h)
    obtain ⟨tree, htree, hblob⟩ := bind_eq_ok.mp hblob
    refine ⟨tree, mapError_eq_ok.mp htree, ?_⟩
    split at hblob
    · next hentry => rw [hentry, Except.ok.inj hblob]
    · exact nomatch hblob
  | none =>
    have hread : worktree.readWorkingFile relative display startLine = .ok (content, state) := h
    unfold Worktree.readWorkingFile at hread
    split at hread
    · exact nomatch hread
    next hisFile =>
    have hexists := hfile (worktree.absolute relative) (by simpa using hisFile)
    obtain ⟨status, -, hread⟩ := bind_eq_ok.mp hread
    dsimp only at hread
    split at hread
    · exact nomatch hread
    obtain ⟨found, hfound, hread⟩ := bind_eq_ok.mp hread
    obtain ⟨rfl, -⟩ := Prod.mk.inj (Except.ok.inj hread)
    -- the path exists, so it is the path itself that was found inside the root
    rw [ensureWithinRoot_eq_ok, climb_of_exists hexists] at hroot
    exact ⟨mapError_eq_ok.mp hfound, hroot⟩

/-- **Resolved lines**: lines that a file of the repository has, each attributed once to the commit
    that blame names. -/
structure LinesSpec (worktree : Worktree) (path : List OsUnit) (startLine endLine : Nat)
    (revision : Option String) (found : ResolvedLines) (relative : List OsUnit)
    (commit : CommitObject) (content : List UInt8) (blame : Blame) : Prop where
  normalized : normalizePath path = .ok (relative, found.path)
  resolved : worktree.revparse (revision.getD "HEAD") = .ok commit
  named : found.revision = commit.id
  holds : worktree.Holds commit relative content revision
  inside : endLine ≤ countLines content
  blamed : worktree.blame commit relative startLine endLine content found.state = .ok blame
  attributed : Attributed blame startLine endLine found.introducedBy

theorem attributeLines_eq_ok {path : List OsUnit} {found : List OsUnit × CommitObject × ResolvedLines}
    (hfile : ∀ path, worktree.isFile path = true → worktree.pathExists path = true)
    (h : worktree.attributeLines path startLine endLine revision = .ok found) :
    ∃ content blame, LinesSpec worktree path startLine endLine revision found.2.2 found.1 found.2.1
      content blame := by
  unfold Worktree.attributeLines at h
  obtain ⟨⟨relative, display⟩, hpath, h⟩ := bind_eq_ok.mp h
  obtain ⟨_, hroot, h⟩ := bind_eq_ok.mp h
  obtain ⟨commit, hcommit, h⟩ := bind_eq_ok.mp h
  obtain ⟨⟨content, state⟩, hcontent, h⟩ := bind_eq_ok.mp h
  dsimp only at h
  split at h
  · exact nomatch h
  next hinside =>
  obtain ⟨blame, hblame, h⟩ := bind_eq_ok.mp h
  obtain ⟨lines, hlines, h⟩ := bind_eq_ok.mp h
  obtain rfl := Except.ok.inj h
  exact ⟨content, blame, mapError_eq_ok.mp hpath, mapError_eq_ok.mp hcommit, rfl,
    holds_of_readContent hfile hroot hcontent, Nat.not_lt.mp hinside, hblame,
    attributed_of_attributions hlines⟩

/-- Resolved lines before their history is read. -/
def ResolvedLines.withoutHistory (found : ResolvedLines) : ResolvedLines :=
  { found with changedBy := [], historyComplete := false }

def Resolved.withoutHistory : Resolved → Resolved
  | .commit root evidence => .commit root evidence
  | .lines found => .lines found.withoutHistory

/-- With or without history, lines are attributed first. -/
theorem resolveLines_eq_ok {path : List OsUnit} {includeHistory : Bool} {found : ResolvedLines}
    (h : worktree.resolveLines path startLine endLine revision includeHistory = .ok found) :
    ∃ relative commit, worktree.attributeLines path startLine endLine revision =
      .ok (relative, commit, found.withoutHistory) := by
  unfold Worktree.resolveLines at h
  obtain ⟨⟨relative, commit, lines⟩, hlines, h⟩ := bind_eq_ok.mp h
  refine ⟨relative, commit, ?_⟩
  have hnone : lines.withoutHistory = lines := by
    unfold Worktree.attributeLines at hlines
    obtain ⟨_, -, hlines⟩ := bind_eq_ok.mp hlines
    obtain ⟨_, -, hlines⟩ := bind_eq_ok.mp hlines
    obtain ⟨_, -, hlines⟩ := bind_eq_ok.mp hlines
    obtain ⟨_, -, hlines⟩ := bind_eq_ok.mp hlines
    dsimp only at hlines
    split at hlines
    · exact nomatch hlines
    obtain ⟨_, -, hlines⟩ := bind_eq_ok.mp hlines
    obtain ⟨_, -, hlines⟩ := bind_eq_ok.mp hlines
    obtain ⟨-, heq⟩ := Prod.mk.inj (Except.ok.inj hlines)
    obtain ⟨-, rfl⟩ := Prod.mk.inj heq
    rfl
  rw [hlines]
  cases includeHistory with
  | false =>
    rw [← Except.ok.inj h, hnone]
  | true =>
    obtain ⟨history, -, h⟩ := bind_eq_ok.mp h
    rw [← Except.ok.inj h]
    exact congrArg _ (congrArg _ (congrArg _ hnone.symm))

/-- One commit with a file of two lines, which another commit introduced. -/
def sampleWorktree : Worktree where
  root := [osText "work"]
  resolver := .discover false
  pathExists path := path = [osText "work", osText "app.txt"]
  canonicalize path := .ok path
  isFile path := path = [osText "work", osText "app.txt"]
  read _ := .ok [97, 10, 98]
  revparse _ := .ok ⟨"c0ffee", "Add b", 0, "Add b"⟩
  tree _ := .ok fun _ => none
  statusFile _ := .ok [.wtModified]
  blameFile _ _ _ _ := .ok fun _ => some ⟨"c0ffee", false, none⟩
  blameBuffer _ _ := .ok fun line =>
    if line = 1 then some ⟨"beef", false, some (osText "old.txt")⟩ else some ⟨"c0ffee", false, none⟩
  walk _ := .ok [.error "missing object"]

/-- Both lines of the modified file. -/
def sampleLines : ResolvedLines :=
  ⟨[osText "work"], "app.txt", 1, 2, "c0ffee", .workingCopy,
    [⟨⟨1, "beef"⟩, "old.txt"⟩, ⟨⟨2, "c0ffee"⟩, "app.txt"⟩], [], false⟩

theorem readHistory_eq {commit : CommitObject} {walk : List WalkedCommit}
    (h : worktree.walk commit = .ok (walk.map .ok)) : worktree.readHistory commit relative =
      (worktree.resolver.pathHistory relative walk).mapError .invalidPath := by
  unfold Worktree.readHistory LocalGitResolver.pathHistory
  rw [h]
  exact readHistoryLoop_map_ok

/-- Without history a target resolves to the same evidence: history alone can fail later. -/
theorem resolveForProof_eq_ok_of_resolve {target : TargetSpec} {full : Resolved}
    (h : worktree.resolve target = .ok full) :
    worktree.resolveForProof target = .ok full.withoutHistory := by
  unfold Worktree.resolve Worktree.resolveTarget at h
  unfold Worktree.resolveForProof Worktree.resolveTarget
  cases target with
  | commit revision =>
    obtain ⟨commit, hcommit, h⟩ := bind_eq_ok.mp h
    rw [← Except.ok.inj h]
    exact bind_eq_ok.mpr ⟨commit, hcommit, rfl⟩
  | lines path startLine endLine revision =>
    obtain ⟨found, hfound, h⟩ := bind_eq_ok.mp h
    rw [← Except.ok.inj h]
    obtain ⟨relative, commit, hattribute⟩ := resolveLines_eq_ok hfound
    exact bind_eq_ok.mpr ⟨found.withoutHistory, bind_eq_ok.mpr ⟨_, hattribute, rfl⟩, rfl⟩

end Worktree

end Rationale.Git
