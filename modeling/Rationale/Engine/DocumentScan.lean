import Rationale.Engine.Why
import Rationale.Docs.Ingest
import Rationale.Library.Stack

namespace Rationale.Engine

open Std Rationale.Library Rationale.Text Rationale.Docs

/-!
# The scan for documents

`collect_documents` of `crates/rationale-engine/src/lib.rs`.

* `FileSystem` — what reading a directory answers, while the tree does not change;
* `scanEntry`, `collectLoop`, `collectDocuments` — the loop over a stack of directories, which ends
  whatever the file system answers;
* `foldlM_scanEntry`, `collectLoop_cons` — one directory of the loop: its entries are scanned, and its
  subdirectories put on the stack;
* `taken_of_collectLoop_ok`, `taken_of_collectLoop_error` — the loop is a depth-first traversal.
-/

/-! ### File systems -/

/-- `OsString` on Unix. -/
abbrev FileName := List UInt8

/-- A path below the root, as the names on it. -/
abbrev DirPath := List FileName

def fileName (text : String) : FileName := text.toUTF8.data.toList

/-- `OsStr::to_str`. -/
def toStr (name : FileName) : Option String := String.fromUTF8? ⟨name.toArray⟩

/-- What `fs::read_to_string` makes of a file. -/
inductive FileText where
  | text (content : String)
  | invalidData
  | failed (detail : String)

inductive FileType where
  | symlink
  | directory
  /-- Anything else, with its length and its text. -/
  | file (length : Except String Nat) (text : FileText)

structure DirEntry where
  name : FileName
  fileType : Except String FileType

/-- A name that is neither `.` nor `..` and has no slash in it. -/
structure ProperName (name : FileName) : Prop where
  ne_nil : name ≠ []
  ne_dot : name ≠ [46]
  ne_dots : name ≠ [46, 46]
  slash : (47 : UInt8) ∉ name

/-- The entries of a directory, in any order: each name once. -/
structure Listing where
  entries : List DirEntry
  distinct : (entries.map DirEntry.name).Nodup
  proper : ∀ entry ∈ entries, ProperName entry.name

structure FileSystem where
  readDir : DirPath → Except String Listing

/-! ### Document paths -/

def maxDocumentBytes : Nat := 1024 * 1024

def maxScannedEntries : Nat := 100000

/-- The last component of a path. -/
def lastComponent (path : String) : Option (List Char) :=
  ((path.toList.splitOn '/').filter fun part => part ≠ [] ∧ part ≠ ['.']).getLast?

/-- `Path::file_stem`. -/
def fileStem (path : String) : Option (List Char) :=
  match lastComponent path with
  | none => none
  | some name =>
      if name = ['.', '.'] then none
      else match rsplitOnce '.' name with
      | some (before, _) => some (if before = [] then name else before)
      | none => some name

def isDocumentPath (path : String) : Bool :=
  let extension := (extension path).map toAsciiLowercase
  if extension = some "md".toList then true
  else [some "toml".toList, some "yaml".toList, some "yml".toList].contains extension &&
    (fileStem path).any fun stem => ".rationale".toList.isSuffixOf (toAsciiLowercase stem)

def excludedDirectory (name : FileName) : Bool :=
  [fileName ".git", fileName ".rationale", fileName "target", fileName "_build"].contains name

/-- `normalized_path`. -/
def normalizedPath (path : DirPath) : Except EngineError String :=
  match path.mapM toStr with
  | some parts => .ok ("/".intercalate parts)
  | none => .error (.git "invalid repository-relative path: document path is not valid UTF-8")

/-! ### The loop -/

/-- The counter and the results. -/
structure Scan where
  scanned : Nat
  documents : List DocumentInput
  diagnostics : List IngestDiagnostic

def Scan.start : Scan := ⟨0, [], []⟩

/-- What an entry that is no directory adds to the results. -/
def scanFile (path : DirPath) (length : Except String Nat) (text : FileText) (scan : Scan) :
    Except EngineError Scan :=
  match normalizedPath path with
  | .error error => .error error
  | .ok relative =>
    if !isDocumentPath relative then .ok scan
    else match length with
    | .error detail => .error (.io detail)
    | .ok length =>
      if length > maxDocumentBytes then
        .ok { scan with diagnostics := scan.diagnostics ++
          [⟨relative, "file_too_large", "document exceeds the configured byte limit"⟩] }
      else match text with
      | .text content => .ok { scan with documents := scan.documents ++ [⟨relative, content⟩] }
      | .invalidData =>
        .ok { scan with diagnostics := scan.diagnostics ++
          [⟨relative, "invalid_utf8", "document is not valid UTF-8"⟩] }
      | .failed detail => .error (.io detail)

/-- One turn of the inner loop, with the stack. -/
def scanEntry (directory : DirPath) (state : List DirPath × Scan) (entry : DirEntry) :
    Except EngineError (List DirPath × Scan) :=
  let (stack, scan) := state
  let scan := { scan with scanned := scan.scanned + 1 }
  let path := directory ++ [entry.name]
  if scan.scanned > maxScannedEntries then .error (.scanLimit maxScannedEntries)
  else match entry.fileType with
  | .error detail => .error (.io detail)
  | .ok .symlink => .ok (stack, scan)
  | .ok .directory => .ok (if excludedDirectory entry.name then stack else path :: stack, scan)
  | .ok (.file length text) => (scanFile path length text scan).map fun scan => (stack, scan)

/-- The entries of a directory by name. -/
def Listing.sorted (listing : Listing) : List DirEntry :=
  sortBy (compareOn DirEntry.name) listing.entries

/-- The subdirectory that an entry adds to the stack. -/
def subdirectory (directory : DirPath) (entry : DirEntry) : List DirPath :=
  match entry.fileType with
  | .ok .directory => if excludedDirectory entry.name then [] else [directory ++ [entry.name]]
  | _ => []

/-- The same turn without the stack. -/
def scanOne (directory : DirPath) (scan : Scan) (entry : DirEntry) : Except EngineError Scan :=
  (scanEntry directory ([], scan) entry).map Prod.snd

section Turn

variable {directory : DirPath} {entry : DirEntry} {entries : List DirEntry} {stack : List DirPath}
  {scan scan' : Scan}

/-- What is on the stack does not matter for a turn. -/
theorem scanEntry_eq : scanEntry directory (stack, scan) entry =
    (scanOne directory scan entry).map fun scan => (subdirectory directory entry ++ stack, scan) := by
  obtain ⟨name, fileType⟩ := entry
  unfold scanOne scanEntry subdirectory
  dsimp only
  by_cases hlimit : scan.scanned + 1 > maxScannedEntries
  · rw [if_pos hlimit, if_pos hlimit]
    rfl
  rw [if_neg hlimit, if_neg hlimit]
  cases fileType with
  | error detail => rfl
  | ok kind =>
    cases kind with
    | symlink => rfl
    | directory => cases excludedDirectory name <;> rfl
    | file length text =>
      show Except.map _ _ = Except.map _ (Except.map _ (Except.map _ _))
      cases scanFile (directory ++ [name]) length text { scan with scanned := scan.scanned + 1 } <;> rfl

/-- **The entries of a directory** are scanned, and its subdirectories come on the stack, the last entry
    on top. -/
theorem foldlM_scanEntry : entries.foldlM (scanEntry directory) (stack, scan) =
    (entries.foldlM (scanOne directory) scan).map fun scan =>
      (entries.reverse.flatMap (subdirectory directory) ++ stack, scan) := by
  induction entries generalizing stack scan with
  | nil => rfl
  | cons entry entries ih =>
    rw [List.foldlM_cons, List.foldlM_cons, scanEntry_eq]
    cases hone : scanOne directory scan entry with
    | error error => rfl
    | ok scan' =>
      show entries.foldlM (scanEntry directory) (subdirectory directory entry ++ stack, scan') = _
      rw [ih]
      show _ = (entries.foldlM (scanOne directory) scan').map _
      congr 1
      funext scan
      simp

theorem scanned_of_scanFile {path : DirPath} {length : Except String Nat} {text : FileText}
    (h : scanFile path length text scan = .ok scan') : scan'.scanned = scan.scanned := by
  unfold scanFile at h
  split at h
  · exact nomatch h
  split at h
  · rw [← Except.ok.inj h]
  split at h
  · exact nomatch h
  split at h
  · rw [← Except.ok.inj h]
  split at h
  · rw [← Except.ok.inj h]
  · rw [← Except.ok.inj h]
  · exact nomatch h

/-- Every turn counts one entry, within the limit. -/
theorem scanned_of_scanOne (h : scanOne directory scan entry = .ok scan') :
    scan'.scanned = scan.scanned + 1 ∧ scan'.scanned ≤ maxScannedEntries := by
  obtain ⟨⟨stack', scan''⟩, hentry, rfl⟩ := map_eq_ok.mp h
  unfold scanEntry at hentry
  dsimp only at hentry
  split at hentry
  · exact nomatch hentry
  next hlimit =>
  have hcount : scan''.scanned = scan.scanned + 1 := by
    split at hentry
    · exact nomatch hentry
    · rw [← (Prod.mk.inj (Except.ok.inj hentry)).2]
    · rw [← (Prod.mk.inj (Except.ok.inj hentry)).2]
    · obtain ⟨scanned, hfile, heq⟩ := map_eq_ok.mp hentry
      rw [← (Prod.mk.inj heq).2]
      exact scanned_of_scanFile hfile
  show scan''.scanned = _ ∧ scan''.scanned ≤ _
  omega

theorem scanned_of_foldlM (h : entries.foldlM (scanOne directory) scan = .ok scan') :
    scan'.scanned = scan.scanned + entries.length ∧
      (entries ≠ [] → scan'.scanned ≤ maxScannedEntries) := by
  induction entries generalizing scan with
  | nil =>
    obtain rfl : scan = scan' := Except.ok.inj h
    exact ⟨rfl, fun hne => absurd rfl hne⟩
  | cons entry entries ih =>
    rw [List.foldlM_cons, bind_eq_ok] at h
    obtain ⟨next, hone, hrest⟩ := h
    obtain ⟨hcount, hle⟩ := scanned_of_scanOne hone
    obtain ⟨hcounts, hles⟩ := ih hrest
    refine ⟨by rw [List.length_cons]; omega, fun _ => ?_⟩
    by_cases hnil : entries = []
    · rw [hnil] at hcounts
      rw [hcounts]
      exact hle
    · exact hles hnil

theorem length_subdirectories_le (entries : List DirEntry) :
    (entries.flatMap (subdirectory directory)).length ≤ entries.length := by
  induction entries with
  | nil => rfl
  | cons entry entries ih =>
    have hone : (subdirectory directory entry).length ≤ 1 := by
      unfold subdirectory
      split
      · split <;> simp
      · simp
    rw [List.flatMap_cons, List.length_append, List.length_cons]
    omega

end Turn

/-- What is left to count, and the directories on the stack. -/
def scanMeasure (stack : List DirPath) (scan : Scan) : Nat :=
  (maxScannedEntries - scan.scanned) + stack.length

theorem scanMeasure_lt {directory : DirPath} {entries : List DirEntry} {stack stack' : List DirPath}
    {scan scan' : Scan}
    (h : entries.foldlM (scanEntry directory) (stack, scan) = .ok (stack', scan')) :
    scanMeasure stack' scan' < scanMeasure (directory :: stack) scan := by
  rw [foldlM_scanEntry] at h
  obtain ⟨scanned, hscan, heq⟩ := map_eq_ok.mp h
  obtain ⟨rfl, rfl⟩ := Prod.mk.inj heq
  obtain ⟨hcount, hle⟩ := scanned_of_foldlM hscan
  have hlength := @length_subdirectories_le directory entries.reverse
  rw [List.length_reverse] at hlength
  unfold scanMeasure
  rw [List.length_append, List.length_cons]
  by_cases hnil : entries = []
  · rw [hnil] at hcount hlength
    simp only [List.length_nil] at hcount hlength
    rw [hnil]
    simp only [List.reverse_nil, List.flatMap_nil, List.length_nil]
    omega
  · have hbound := hle hnil
    omega

/-- The loop over the stack. -/
def collectLoop (fs : FileSystem) : List DirPath → Scan → Except EngineError Scan
  | [], scan => .ok scan
  | directory :: stack, scan =>
    match fs.readDir directory with
    | .error detail => .error (.io detail)
    | .ok listing =>
      match _h : listing.sorted.reverse.foldlM (scanEntry directory) (stack, scan) with
      | .error error => .error error
      | .ok (stack', scan') => collectLoop fs stack' scan'
termination_by stack scan => scanMeasure stack scan
decreasing_by exact scanMeasure_lt _h

/-- `collect_documents`. -/
def collectDocuments (fs : FileSystem) :
    Except EngineError (List DocumentInput × List IngestDiagnostic) :=
  (collectLoop fs [[]] .start).map fun scan =>
    (sortBy (compareOn DocumentInput.path) scan.documents, scan.diagnostics)

/-! ### The loop as a traversal -/

section Loop

variable {fs : FileSystem} {directory : DirPath} {stack : List DirPath} {scan scan' : Scan}
  {error : EngineError}

/-- The subdirectories that are scanned, by name. -/
def subdirectories (fs : FileSystem) (directory : DirPath) : List DirPath :=
  match fs.readDir directory with
  | .error _ => []
  | .ok listing => listing.sorted.flatMap (subdirectory directory)

/-- One turn of the loop, without the stack. -/
def scanDirectory (fs : FileSystem) (scan : Scan) (directory : DirPath) : Except EngineError Scan :=
  match fs.readDir directory with
  | .error detail => .error (.io detail)
  | .ok listing => listing.sorted.reverse.foldlM (scanOne directory) scan

theorem collectLoop_nil : collectLoop fs [] scan = .ok scan := by
  unfold collectLoop
  rfl

/-- **One turn**: the subdirectories take the place of their directory. -/
theorem collectLoop_cons : collectLoop fs (directory :: stack) scan =
    scanDirectory fs scan directory >>= collectLoop fs (subdirectories fs directory ++ stack) := by
  rw [collectLoop]
  unfold scanDirectory subdirectories
  cases hread : fs.readDir directory with
  | error detail => rfl
  | ok listing =>
    dsimp only
    have hfold := @foldlM_scanEntry directory listing.sorted.reverse stack scan
    rw [List.reverse_reverse] at hfold
    split
    · next failure heq =>
      rw [hfold] at heq
      cases hone : listing.sorted.reverse.foldlM (scanOne directory) scan with
      | error failure' =>
        rw [hone] at heq
        obtain rfl := Except.error.inj heq
        rfl
      | ok scan' =>
        rw [hone] at heq
        exact nomatch heq
    · next stack' scan' heq =>
      rw [hfold] at heq
      obtain ⟨scan'', hone, hpair⟩ := map_eq_ok.mp heq
      obtain ⟨rfl, rfl⟩ := Prod.mk.inj hpair
      rw [hone]
      rfl

/-- The measure of a turn. -/
theorem scanMeasure_scanDirectory (h : scanDirectory fs scan directory = .ok scan') :
    scanMeasure (subdirectories fs directory ++ stack) scan' <
      scanMeasure (directory :: stack) scan := by
  unfold scanDirectory at h
  unfold subdirectories
  split at h
  · exact nomatch h
  · next listing hread =>
    have hfold := @foldlM_scanEntry directory listing.sorted.reverse stack scan
    rw [List.reverse_reverse, h] at hfold
    exact scanMeasure_lt hfold

/-- A loop that ends has taken every directory from its stack, and scanned them in that order. -/
theorem taken_of_collectLoop_ok (h : collectLoop fs stack scan = .ok scan') :
    ∃ directories, Taken (subdirectories fs) stack directories [] ∧
      directories.foldlM (scanDirectory fs) scan = .ok scan' := by
  induction hmeasure : scanMeasure stack scan using Nat.strong_induction_on generalizing stack scan with
  | _ measure ih =>
    cases stack with
    | nil =>
      rw [collectLoop_nil] at h
      exact ⟨[], .start, h⟩
    | cons directory stack =>
      rw [collectLoop_cons, bind_eq_ok] at h
      obtain ⟨next, hturn, hrest⟩ := h
      have hlt := @scanMeasure_scanDirectory fs directory stack _ _ hturn
      obtain ⟨directories, htaken, hfold⟩ := ih _ (hmeasure ▸ hlt) hrest rfl
      refine ⟨directory :: directories, htaken.cons, ?_⟩
      rw [List.foldlM_cons, bind_eq_ok]
      exact ⟨next, hturn, hfold⟩

/-- A loop that fails has done so in the directory on top of the stack. -/
theorem taken_of_collectLoop_error (h : collectLoop fs stack scan = .error error) :
    ∃ directories directory rest scan', Taken (subdirectories fs) stack directories (directory :: rest) ∧
      directories.foldlM (scanDirectory fs) scan = .ok scan' ∧
      scanDirectory fs scan' directory = .error error := by
  induction hmeasure : scanMeasure stack scan using Nat.strong_induction_on generalizing stack scan with
  | _ measure ih =>
    cases stack with
    | nil =>
      rw [collectLoop_nil] at h
      exact nomatch h
    | cons directory stack =>
      rw [collectLoop_cons, bind_eq_error] at h
      rcases h with hturn | ⟨next, hturn, hrest⟩
      · exact ⟨[], directory, stack, scan, .start, rfl, hturn⟩
      · have hlt := @scanMeasure_scanDirectory fs directory stack _ _ hturn
        obtain ⟨directories, failed, rest, scan', htaken, hfold, hfailed⟩ :=
          ih _ (hmeasure ▸ hlt) hrest rfl
        refine ⟨directory :: directories, failed, rest, scan', htaken.cons, ?_, hfailed⟩
        rw [List.foldlM_cons, bind_eq_ok]
        exact ⟨next, hturn, hfold⟩

end Loop

end Rationale.Engine
