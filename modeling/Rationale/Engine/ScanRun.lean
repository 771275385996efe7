import Rationale.Engine.DocumentScan
import Rationale.Engine.Identify

namespace Rationale.Engine

open Std Rationale.Library Rationale.Text Rationale.Docs

/-!
# What the scan collects

The results of `collect_documents`, against the tree below the root.

* `ReachedDir`, `ReachedEntry` — what is below the root without links and excluded directories;
* `Adds` — what one entry contributes;
* `collectDocuments_succeeds_iff` — the scan succeeds exactly when every directory and entry of the tree
  can be read, every file has a UTF-8 path, and there are not too many entries;
* `collectDocuments_exact` — it collects every document of the tree once, in path order, and reports
  exactly the documents that are too large or not UTF-8.
-/

/-! ### Paths -/

section Paths

variable {name : FileName} {text : String} {path path' : DirPath} {relative : String}

theorem toByteArray_of_toStr (h : toStr name = some text) : text.toByteArray = ⟨name.toArray⟩ := by
  unfold toStr String.fromUTF8? at h
  split at h
  · rw [← Option.some.inj h]
    rfl
  · exact nomatch h

theorem toStr_fileName (text : String) : toStr (fileName text) = some text := by
  show String.fromUTF8? text.toByteArray = some text
  unfold String.fromUTF8?
  rw [dif_pos text.isValidUTF8]
  rfl

theorem toStr_injective {name' : FileName} (h : toStr name = some text)
    (h' : toStr name' = some text) : name = name' := by
  have heq := (toByteArray_of_toStr h).symm.trans (toByteArray_of_toStr h')
  have harray : name.toArray = name'.toArray := congrArg ByteArray.data heq
  simpa using congrArg Array.toList harray

/-- A slash of a text is one of its octets. -/
theorem slash_mem_utf8Encode {cs : List Char} (h : '/' ∈ cs) : 47 ∈ cs.utf8Encode.data.toList := by
  obtain ⟨before, after, rfl⟩ := List.append_of_mem h
  have hslash : ['/'].utf8Encode.data.toList = [47] := by
    rw [List.utf8Encode_singleton, List.data_toByteArray]
    rfl
  rw [List.utf8Encode_append, List.utf8Encode_cons]
  simp [hslash]

theorem slash_notMem_toStr (hname : ProperName name) (h : toStr name = some text) :
    '/' ∉ text.toList := by
  intro hmem
  apply hname.slash
  have hbytes := slash_mem_utf8Encode hmem
  rw [String.utf8Encode_toList, toByteArray_of_toStr h] at hbytes
  simpa using hbytes

theorem mapM_toStr_eq_some {parts : List String} :
    path.mapM toStr = some parts ↔ List.Forall₂ (fun name part => toStr name = some part) path parts := by
  induction path generalizing parts with
  | nil => cases parts <;> simp
  | cons name path ih =>
    rw [List.mapM_cons]
    show ((toStr name).bind fun part => (path.mapM toStr).bind fun parts => some (part :: parts)) =
      some parts ↔ _
    rw [List.forall₂_cons_left_iff]
    simp only [Option.bind_eq_some_iff, Option.some.injEq]
    constructor
    · rintro ⟨part, hpart, rest, hrest, rfl⟩
      exact ⟨part, rest, hpart, ih.mp hrest, rfl⟩
    · rintro ⟨part, rest, hpart, hrest, rfl⟩
      exact ⟨part, hpart, rest, ih.mpr hrest, rfl⟩

/-- The parts of a path. -/
theorem normalizedPath_eq_ok : normalizedPath path = .ok relative ↔
    ∃ parts, List.Forall₂ (fun name part => toStr name = some part) path parts ∧
      relative = "/".intercalate parts := by
  simp only [← mapM_toStr_eq_some]
  unfold normalizedPath
  cases path.mapM toStr with
  | none => simp
  | some parts => simp [eq_comm]

/-- No part of a path has a slash in it. -/
theorem slash_notMem_part {parts : List String} (hpath : ∀ name ∈ path, ProperName name)
    (hparts : List.Forall₂ (fun name part => toStr name = some part) path parts) :
    ∀ part ∈ parts, '/' ∉ part.toList := by
  induction hparts with
  | nil => simp
  | cons hname hrest ih =>
    obtain ⟨hproper, hpath⟩ := List.forall_mem_cons.mp hpath
    exact List.forall_mem_cons.mpr ⟨slash_notMem_toStr hproper hname, ih hpath⟩

/-- The parts between the slashes of a path are its names. -/
theorem splitOn_intercalate_parts {parts : List String}
    (hpath : ∀ name ∈ path, ProperName name) (hne : path ≠ [])
    (hparts : List.Forall₂ (fun name part => toStr name = some part) path parts) :
    ("/".intercalate parts).toList.splitOn '/' = parts.map String.toList := by
  have hslash : ∀ part ∈ parts.map String.toList, '/' ∉ part := by
    intro part hpart
    obtain ⟨text, htext, rfl⟩ := List.mem_map.mp hpart
    exact slash_notMem_part hpath hparts text htext
  have hnil : parts.map String.toList ≠ [] := by
    cases hparts with
    | nil => exact absurd rfl hne
    | cons hname hrest => simp
  have hlist : ("/".intercalate parts).toList = ['/'].intercalate (parts.map String.toList) := by
    rw [String.toList_intercalate]
    rfl
  rw [hlist, List.splitOn_intercalate '/' hslash hnil]

/-- **Different paths are written differently.** -/
theorem normalizedPath_injective (hpath : ∀ name ∈ path, ProperName name)
    (hpath' : ∀ name ∈ path', ProperName name) (hne : path ≠ []) (hne' : path' ≠ [])
    (h : normalizedPath path = .ok relative) (h' : normalizedPath path' = .ok relative) :
    path = path' := by
  obtain ⟨parts, hparts, rfl⟩ := normalizedPath_eq_ok.mp h
  obtain ⟨parts', hparts', heq⟩ := normalizedPath_eq_ok.mp h'
  have hmaps : parts.map String.toList = parts'.map String.toList := by
    rw [← splitOn_intercalate_parts hpath hne hparts, heq,
      splitOn_intercalate_parts hpath' hne' hparts']
  obtain rfl : parts = parts' := (List.map_injective_iff.mpr fun _ _ => String.toList_inj.mp) hmaps
  clear heq h h' hne hne' hpath hpath' hmaps
  induction hparts generalizing path' with
  | nil =>
    cases hparts'
    rfl
  | cons hname hrest ih =>
    cases hparts' with
    | cons hname' hrest' => rw [toStr_injective hname hname', ih hrest']

end Paths

/-! ### The tree below the root -/

/-- The directories that are reached from the root. -/
inductive ReachedDir (fs : FileSystem) : DirPath → Prop where
  | root : ReachedDir fs []
  | sub {directory listing entry} (h : ReachedDir fs directory)
      (hread : fs.readDir directory = .ok listing) (hentry : entry ∈ listing.entries)
      (hdirectory : entry.fileType = .ok .directory) (hscanned : excludedDirectory entry.name = false) :
      ReachedDir fs (directory ++ [entry.name])

/-- The entries of these directories. -/
def ReachedEntry (fs : FileSystem) (item : DirPath × DirEntry) : Prop :=
  ReachedDir fs item.1 ∧ ∃ listing, fs.readDir item.1 = .ok listing ∧ item.2 ∈ listing.entries

def tooLarge (relative : String) : IngestDiagnostic :=
  ⟨relative, "file_too_large", "document exceeds the configured byte limit"⟩

def notUtf8 (relative : String) : IngestDiagnostic :=
  ⟨relative, "invalid_utf8", "document is not valid UTF-8"⟩

/-- A file of the tree with a document path. -/
structure DocumentFile (item : DirPath × DirEntry) (relative : String) (length : Nat) (text : FileText) :
    Prop where
  file : item.2.fileType = .ok (.file (.ok length) text)
  path : normalizedPath (item.1 ++ [item.2.name]) = .ok relative
  document : isDocumentPath relative = true

/-- What an entry contributes: documents and diagnostics. -/
inductive Adds (item : DirPath × DirEntry) : List DocumentInput × List IngestDiagnostic → Prop where
  | symlink (h : item.2.fileType = .ok .symlink) : Adds item ([], [])
  | directory (h : item.2.fileType = .ok .directory) : Adds item ([], [])
  | other {length text relative} (h : item.2.fileType = .ok (.file length text))
      (hpath : normalizedPath (item.1 ++ [item.2.name]) = .ok relative)
      (hother : isDocumentPath relative = false) : Adds item ([], [])
  | tooLarge {relative length text} (h : DocumentFile item relative length text)
      (hlarge : maxDocumentBytes < length) : Adds item ([], [tooLarge relative])
  | notUtf8 {relative length} (h : DocumentFile item relative length .invalidData)
      (hsmall : length ≤ maxDocumentBytes) : Adds item ([], [notUtf8 relative])
  | document {relative length content} (h : DocumentFile item relative length (.text content))
      (hsmall : length ≤ maxDocumentBytes) : Adds item ([⟨relative, content⟩], [])

/-- The results with further ones. -/
def Scan.add (scan : Scan) (count : Nat) (found : List DocumentInput × List IngestDiagnostic) : Scan :=
  ⟨scan.scanned + count, scan.documents ++ found.1, scan.diagnostics ++ found.2⟩

section Entries

variable {item : DirPath × DirEntry} {scan scan' : Scan}
  {found found' : List DocumentInput × List IngestDiagnostic}

@[simp] theorem Scan.add_nil (scan : Scan) : scan.add 0 ([], []) = scan := by
  simp [Scan.add]

/-- A file that is scanned contributes something. -/
theorem exists_adds_of_scanFile {length : Except String Nat} {text : FileText}
    (hfile : item.2.fileType = .ok (.file length text))
    (h : scanFile (item.1 ++ [item.2.name]) length text scan = .ok scan') :
    ∃ found, Adds item found ∧ scan' = scan.add 0 found := by
  unfold scanFile at h
  split at h
  · exact nomatch h
  next relative hpath =>
  split at h
  · next hother =>
    obtain rfl := Except.ok.inj h
    exact ⟨_, .other hfile hpath (by simpa using hother), (Scan.add_nil scan).symm⟩
  next hdocument =>
  have hdocument : isDocumentPath relative = true := by simpa using hdocument
  split at h
  · exact nomatch h
  next length =>
  have hitem : DocumentFile item relative length text := ⟨hfile, hpath, hdocument⟩
  split at h
  · next hlarge =>
    obtain rfl := Except.ok.inj h
    exact ⟨_, .tooLarge hitem hlarge, by simp [Scan.add, tooLarge]⟩
  next hsmall =>
  have hsmall := Nat.le_of_not_lt hsmall
  split at h
  · obtain rfl := Except.ok.inj h
    exact ⟨_, .document hitem hsmall, by simp [Scan.add]⟩
  · obtain rfl := Except.ok.inj h
    exact ⟨_, .notUtf8 hitem hsmall, by simp [Scan.add, notUtf8]⟩
  · exact nomatch h

/-- What an entry contributes is added by its turn. -/
theorem Adds.scanOne (h : Adds item found) (hlimit : scan.scanned < maxScannedEntries) :
    scanOne item.1 scan item.2 = .ok (scan.add 1 found) := by
  have hcount : ¬ scan.scanned + 1 > maxScannedEntries := by omega
  unfold Engine.scanOne scanEntry
  dsimp only
  rw [if_neg hcount]
  cases h with
  | symlink h =>
    rw [h]
    simp [Except.map, Scan.add]
  | directory h =>
    rw [h]
    simp [Except.map, Scan.add]
  | other h hpath hother =>
    rw [h]
    simp [scanFile, hpath, hother, Except.map, Scan.add]
  | tooLarge h hlarge =>
    rw [h.file]
    simp [scanFile, h.path, h.document, hlarge, Except.map, Scan.add, Engine.tooLarge]
  | notUtf8 h hsmall =>
    rw [h.file]
    simp [scanFile, h.path, h.document, Nat.not_lt.mpr hsmall, Except.map, Scan.add, Engine.notUtf8]
  | document h hsmall =>
    rw [h.file]
    simp [scanFile, h.path, h.document, Nat.not_lt.mpr hsmall, Except.map, Scan.add]

/-- **One turn** of the inner loop. -/
theorem scanOne_eq_ok : scanOne item.1 scan item.2 = .ok scan' ↔
    scan.scanned < maxScannedEntries ∧ ∃ found, Adds item found ∧ scan' = scan.add 1 found := by
  constructor
  · intro h
    have hlimit := scanned_of_scanOne h
    refine ⟨by omega, ?_⟩
    obtain ⟨⟨stack', scanned⟩, hentry, rfl⟩ := map_eq_ok.mp h
    unfold scanEntry at hentry
    dsimp only at hentry
    split at hentry
    · exact nomatch hentry
    split at hentry
    · exact nomatch hentry
    · next hsymlink =>
      obtain ⟨rfl, rfl⟩ := Prod.mk.inj (Except.ok.inj hentry)
      exact ⟨_, .symlink hsymlink, by simp [Scan.add]⟩
    · next hdirectory =>
      rw [← (Prod.mk.inj (Except.ok.inj hentry)).2]
      exact ⟨_, .directory hdirectory, by simp [Scan.add]⟩
    · next length text hfile =>
      obtain ⟨scanned', hscan, heq⟩ := map_eq_ok.mp hentry
      obtain ⟨rfl, rfl⟩ := Prod.mk.inj heq
      obtain ⟨found, hadds, hfound⟩ := exists_adds_of_scanFile hfile hscan
      exact ⟨found, hadds, hfound⟩
  · rintro ⟨hlimit, found, hadds, rfl⟩
    exact hadds.scanOne hlimit

/-- An entry contributes one thing. -/
theorem Adds.unique (h : Adds item found) (h' : Adds item found') : found = found' := by
  have heq := (h.scanOne (show Scan.start.scanned < _ by decide)).symm.trans
    (h'.scanOne (show Scan.start.scanned < _ by decide))
  have hscan := Except.ok.inj heq
  simpa [Scan.add, Scan.start, Prod.ext_iff] using hscan

end Entries

/-! ### The items of a scan -/

section Items

variable {fs : FileSystem} {directory : DirPath} {directories : List DirPath} {scan scan' : Scan}
  {items : List (DirPath × DirEntry)} {found : List (List DocumentInput × List IngestDiagnostic)}

/-- The entries of a directory, in the order of the scan. -/
def ownItems (fs : FileSystem) (directory : DirPath) : List (DirPath × DirEntry) :=
  match fs.readDir directory with
  | .error _ => []
  | .ok listing => listing.sorted.reverse.map (directory, ·)

/-- The results of several entries. -/
def gather (found : List (List DocumentInput × List IngestDiagnostic)) :
    List DocumentInput × List IngestDiagnostic :=
  (found.flatMap Prod.fst, found.flatMap Prod.snd)

theorem mem_ownItems {item : DirPath × DirEntry} : item ∈ ownItems fs directory ↔
    item.1 = directory ∧ ∃ listing, fs.readDir directory = .ok listing ∧ item.2 ∈ listing.entries := by
  unfold ownItems
  cases hread : fs.readDir directory with
  | error detail => simp
  | ok listing =>
    obtain ⟨directory', entry⟩ := item
    simp [Listing.sorted, eq_comm, and_comm]

/-- One turn of the outer loop. -/
theorem scanDirectory_eq_ok : scanDirectory fs scan directory = .ok scan' ↔
    (∃ listing, fs.readDir directory = .ok listing) ∧
      (ownItems fs directory).foldlM (fun scan item => scanOne item.1 scan item.2) scan =
        .ok scan' := by
  unfold scanDirectory ownItems
  cases fs.readDir directory with
  | error detail => simp
  | ok listing =>
    dsimp only
    rw [List.foldlM_map]
    exact ⟨fun h => ⟨⟨listing, rfl⟩, h⟩, fun h => h.2⟩

/-- Directories are scanned one after the other when their entries are. -/
theorem foldlM_scanDirectory_eq_ok : directories.foldlM (scanDirectory fs) scan = .ok scan' ↔
    (∀ directory ∈ directories, ∃ listing, fs.readDir directory = .ok listing) ∧
      (directories.flatMap (ownItems fs)).foldlM (fun scan item => scanOne item.1 scan item.2) scan =
        .ok scan' := by
  induction directories generalizing scan with
  | nil => simp
  | cons directory directories ih =>
    rw [List.foldlM_cons, List.flatMap_cons, List.foldlM_append, List.forall_mem_cons, bind_eq_ok,
      bind_eq_ok]
    simp only [ih, scanDirectory_eq_ok]
    constructor
    · rintro ⟨next, ⟨hread, hnext⟩, hdirectories, hrest⟩
      exact ⟨⟨hread, hdirectories⟩, next, hnext, hrest⟩
    · rintro ⟨⟨hread, hdirectories⟩, next, hnext, hrest⟩
      exact ⟨next, ⟨hread, hnext⟩, hdirectories, hrest⟩

/-- **The entries** are scanned when each contributes something and there are not too many. -/
theorem foldlM_scanOne_eq_ok :
    items.foldlM (fun scan item => scanOne item.1 scan item.2) scan = .ok scan' ↔
      (items = [] ∨ scan.scanned + items.length ≤ maxScannedEntries) ∧
        ∃ found, List.Forall₂ Adds items found ∧ scan' = scan.add items.length (gather found) := by
  induction items generalizing scan with
  | nil =>
    show Except.ok scan = .ok scan' ↔ _
    simp [gather, eq_comm]
  | cons item items ih =>
    rw [List.foldlM_cons, bind_eq_ok]
    simp only [ih, scanOne_eq_ok, List.forall₂_cons_left_iff]
    constructor
    · rintro ⟨next, ⟨hlimit, found, hadds, rfl⟩, hlength, rest, hrest, rfl⟩
      refine ⟨Or.inr ?_, found :: rest, ⟨found, rest, hadds, hrest, rfl⟩, ?_⟩
      · rw [List.length_cons]
        rcases hlength with rfl | hlength
        · simpa using hlimit
        · have hadd : (scan.add 1 found).scanned = scan.scanned + 1 := rfl
          omega
      · simp [Scan.add, gather, Nat.add_comm, Nat.add_left_comm]
    · rintro ⟨hlength, _, ⟨found, rest, hadds, hrest, rfl⟩, rfl⟩
      have hlength : scan.scanned + (items.length + 1) ≤ maxScannedEntries := by simpa using hlength
      refine ⟨_, ⟨by omega, found, hadds, rfl⟩, Or.inr ?_, rest, hrest, ?_⟩
      · show scan.scanned + 1 + items.length ≤ _
        omega
      · simp [Scan.add, gather, Nat.add_comm, Nat.add_left_comm]

end Items

/-! ### The tree as a forest -/

section Tree

variable {fs : FileSystem} {directory sub : DirPath} {item : DirPath × DirEntry}

theorem mem_subdirectories : sub ∈ subdirectories fs directory ↔
    ∃ listing, fs.readDir directory = .ok listing ∧ ∃ entry ∈ listing.entries,
      entry.fileType = .ok .directory ∧ excludedDirectory entry.name = false ∧
        sub = directory ++ [entry.name] := by
  unfold subdirectories
  cases fs.readDir directory with
  | error detail => simp
  | ok listing =>
    simp only [List.mem_flatMap, Listing.sorted, mem_sortBy, Except.ok.injEq, exists_eq_left']
    apply exists_congr
    intro entry
    apply and_congr_right
    intro hentry
    unfold subdirectory
    split
    · next hdirectory => cases excludedDirectory entry.name <;> simp [hdirectory]
    · next hother =>
      refine iff_of_false List.not_mem_nil fun h => ?_
      exact hother h.1

theorem sorted_pairwise_ne (listing : Listing) :
    listing.sorted.Pairwise (fun entry entry' => entry.name ≠ entry'.name) := by
  have hperm : (listing.sorted.map DirEntry.name).Perm (listing.entries.map DirEntry.name) :=
    (sortBy_perm _).map DirEntry.name
  exact List.pairwise_map.mp (hperm.nodup_iff.mpr listing.distinct)

/-- The directories below the root are a tree. -/
theorem forest_subdirectories (fs : FileSystem) : Forest (subdirectories fs) List.length where
  nodup directory := by
    unfold subdirectories
    cases fs.readDir directory with
    | error detail => exact List.nodup_nil
    | ok listing =>
      refine List.nodup_flatMap.mpr ⟨fun entry _ => ?_, (sorted_pairwise_ne listing).imp ?_⟩
      · unfold subdirectory
        split
        · split <;> simp
        · exact List.nodup_nil
      · intro entry entry' hne sub hsub hsub'
        have hname : ∀ {entry : DirEntry}, sub ∈ subdirectory directory entry →
            sub = directory ++ [entry.name] := by
          intro entry hmem
          unfold subdirectory at hmem
          split at hmem
          · split at hmem
            · exact absurd hmem List.not_mem_nil
            · exact List.mem_singleton.mp hmem
          · exact absurd hmem List.not_mem_nil
        have heq := (hname hsub).symm.trans (hname hsub')
        exact hne (by simpa using heq)
  parent_unique directory directory' sub hsub hsub' := by
    obtain ⟨_, -, entry, -, -, -, rfl⟩ := mem_subdirectories.mp hsub
    obtain ⟨_, -, entry', -, -, -, heq⟩ := mem_subdirectories.mp hsub'
    exact (List.append_inj' heq rfl).1
  level_child directory sub hsub := by
    obtain ⟨_, -, entry, -, -, -, rfl⟩ := mem_subdirectories.mp hsub
    simp

theorem reachedDir_iff_below :
    ReachedDir fs directory ↔ directory ∈ Below (subdirectories fs) [[]] := by
  constructor
  · intro h
    induction h with
    | root => exact ⟨[], List.mem_singleton_self [], Relation.ReflTransGen.refl⟩
    | sub h hread hentry hdirectory hscanned ih =>
      obtain ⟨root, hroot, hreach⟩ := ih
      exact ⟨root, hroot, hreach.tail (mem_subdirectories.mpr
        ⟨_, hread, _, hentry, hdirectory, hscanned, rfl⟩)⟩
  · rintro ⟨root, hroot, hreach⟩
    obtain rfl := List.mem_singleton.mp hroot
    induction hreach with
    | refl => exact .root
    | tail _ hchild ih =>
      obtain ⟨listing, hread, entry, hentry, hdirectory, hscanned, rfl⟩ := mem_subdirectories.mp hchild
      exact .sub ih hread hentry hdirectory hscanned

/-- The names on a reached path are proper. -/
theorem ReachedDir.proper (h : ReachedDir fs directory) : ∀ name ∈ directory, ProperName name := by
  induction h with
  | root => simp
  | @sub directory listing entry h hread hentry hdirectory hscanned ih =>
    intro name hname
    rcases List.mem_append.mp hname with hname | hname
    · exact ih name hname
    · rw [List.mem_singleton.mp hname]
      exact listing.proper entry hentry

theorem ReachedEntry.proper (h : ReachedEntry fs item) :
    ∀ name ∈ item.1 ++ [item.2.name], ProperName name := by
  obtain ⟨hdirectory, listing, -, hentry⟩ := h
  intro name hname
  rcases List.mem_append.mp hname with hname | hname
  · exact hdirectory.proper name hname
  · rw [List.mem_singleton.mp hname]
    exact listing.proper item.2 hentry

/-- An entry is known by its path. -/
theorem ReachedEntry.eq_of_path {item' : DirPath × DirEntry} (h : ReachedEntry fs item)
    (h' : ReachedEntry fs item') (heq : item.1 ++ [item.2.name] = item'.1 ++ [item'.2.name]) :
    item = item' := by
  obtain ⟨directory, entry⟩ := item
  obtain ⟨directory', entry'⟩ := item'
  obtain ⟨hdirectory, hname⟩ := List.append_inj' heq rfl
  obtain rfl : directory = directory' := hdirectory
  have hname : entry.name = entry'.name := by simpa using hname
  obtain ⟨-, listing, hread, hentry⟩ := h
  obtain ⟨-, listing', hread', hentry'⟩ := h'
  obtain rfl := Except.ok.inj (hread.symm.trans hread')
  exact congrArg (Prod.mk directory) (List.inj_on_of_nodup_map listing.distinct hentry hentry' hname)

/-- Directories without repetitions have entries without repetitions. -/
theorem nodup_flatMap_ownItems {directories : List DirPath} (h : directories.Nodup) :
    (directories.flatMap (ownItems fs)).Nodup := by
  refine List.nodup_flatMap.mpr ⟨fun directory _ => ?_, h.imp ?_⟩
  · unfold ownItems
    cases fs.readDir directory with
    | error detail => exact List.nodup_nil
    | ok listing =>
      have hnodup : listing.sorted.Nodup :=
        (sorted_pairwise_ne listing).imp fun hne heq => hne (congrArg DirEntry.name heq)
      refine List.Nodup.map (fun entry entry' heq => (Prod.mk.inj heq).2) ?_
      exact List.nodup_reverse.mpr hnodup
  · intro directory directory' hne item hitem hitem'
    exact hne ((mem_ownItems.mp hitem).1.symm.trans (mem_ownItems.mp hitem').1)

end Tree

/-! ### Results -/

section Results

variable {fs : FileSystem} {documents : List DocumentInput} {diagnostics : List IngestDiagnostic}
  {found : List DocumentInput × List IngestDiagnostic} {items : List (DirPath × DirEntry)}

/-- A tree that the scan can go through. -/
structure Scannable (fs : FileSystem) : Prop where
  directories : ∀ directory, ReachedDir fs directory → ∃ listing, fs.readDir directory = .ok listing
  entries : ∀ item, ReachedEntry fs item → ∃ found, Adds item found
  bounded : {item | ReachedEntry fs item}.encard ≤ maxScannedEntries

/-- The entries of the directories that were taken, when none is left to take. -/
theorem mem_flatMap_ownItems {directories : List DirPath} {item : DirPath × DirEntry}
    (h : ∀ directory, directory ∈ directories ↔ ReachedDir fs directory) :
    item ∈ directories.flatMap (ownItems fs) ↔ ReachedEntry fs item := by
  rw [List.mem_flatMap]
  constructor
  · rintro ⟨directory, hdirectory, hitem⟩
    obtain ⟨rfl, hlisting⟩ := mem_ownItems.mp hitem
    exact ⟨(h _).mp hdirectory, hlisting⟩
  · rintro ⟨hdirectory, hlisting⟩
    exact ⟨item.1, (h _).mpr hdirectory, mem_ownItems.mpr ⟨rfl, hlisting⟩⟩

/-- **A scan that succeeds** has gone through every entry of the tree once. -/
theorem collectDocuments_eq_ok (h : collectDocuments fs = .ok (documents, diagnostics)) :
    (∀ directory, ReachedDir fs directory → ∃ listing, fs.readDir directory = .ok listing) ∧
      ∃ items, items.Nodup ∧ (∀ item, item ∈ items ↔ ReachedEntry fs item) ∧
        items.length ≤ maxScannedEntries ∧ ∃ found, List.Forall₂ Adds items found ∧
          documents = sortBy (compareOn DocumentInput.path) (gather found).1 ∧
          diagnostics = (gather found).2 := by
  obtain ⟨scan, hloop, hresult⟩ := map_eq_ok.mp h
  obtain ⟨rfl, rfl⟩ := Prod.mk.inj hresult
  obtain ⟨directories, htaken, hfold⟩ := taken_of_collectLoop_ok hloop
  obtain ⟨hread, hitems⟩ := foldlM_scanDirectory_eq_ok.mp hfold
  obtain ⟨hlength, found, hadds, rfl⟩ := foldlM_scanOne_eq_ok.mp hitems
  -- nothing is left on the stack, so what was taken is what the root reaches
  have hreached : ∀ directory, directory ∈ directories ↔ ReachedDir fs directory := by
    intro directory
    rw [reachedDir_iff_below, htaken.below_iff]
    simp [Below]
  have hnodup := htaken.nodup (forest_subdirectories fs)
    (unrelated_singleton (forest_subdirectories fs) [])
  refine ⟨fun directory hdirectory => hread directory ((hreached directory).mpr hdirectory), _,
    nodup_flatMap_ownItems hnodup, fun item => mem_flatMap_ownItems hreached, ?_, found, hadds, ?_, ?_⟩
  · rcases hlength with hnil | hlength
    · rw [hnil]
      exact Nat.zero_le _
    · simpa [Scan.start] using hlength
  · simp [Scan.add, Scan.start]
  · simp [Scan.add, Scan.start]

/-- Whatever contributes something can be scanned together. -/
theorem exists_forall₂_adds (h : ∀ item ∈ items, ∃ found, Adds item found) :
    ∃ found, List.Forall₂ Adds items found := by
  induction items with
  | nil => exact ⟨[], .nil⟩
  | cons item items ih =>
    obtain ⟨⟨first, hfirst⟩, hrest⟩ := List.forall_mem_cons.mp h
    obtain ⟨found, hfound⟩ := ih hrest
    exact ⟨first :: found, .cons hfirst hfound⟩

theorem exists_found_of_mem {found : List (List DocumentInput × List IngestDiagnostic)}
    {item : DirPath × DirEntry} (h : List.Forall₂ Adds items found) (hitem : item ∈ items) :
    ∃ one ∈ found, Adds item one := by
  induction h with
  | nil => exact absurd hitem List.not_mem_nil
  | cons hfirst hrest ih =>
    rcases List.mem_cons.mp hitem with rfl | hitem
    · exact ⟨_, List.mem_cons_self, hfirst⟩
    · obtain ⟨one, hone, hadds⟩ := ih hitem
      exact ⟨one, List.mem_cons_of_mem _ hone, hadds⟩

theorem exists_item_of_mem {found : List (List DocumentInput × List IngestDiagnostic)}
    {one : List DocumentInput × List IngestDiagnostic} (h : List.Forall₂ Adds items found)
    (hone : one ∈ found) : ∃ item ∈ items, Adds item one := by
  induction h with
  | nil => exact absurd hone List.not_mem_nil
  | cons hfirst hrest ih =>
    rcases List.mem_cons.mp hone with rfl | hone
    · exact ⟨_, List.mem_cons_self, hfirst⟩
    · obtain ⟨item, hitem, hadds⟩ := ih hone
      exact ⟨item, List.mem_cons_of_mem _ hitem, hadds⟩

/-- **Success.** The scan succeeds exactly when its tree can be gone through. -/
theorem collectDocuments_succeeds_iff :
    (∃ result, collectDocuments fs = .ok result) ↔ Scannable fs := by
  constructor
  · rintro ⟨⟨documents, diagnostics⟩, h⟩
    obtain ⟨hread, items, hnodup, hitems, hlength, found, hadds, -, -⟩ := collectDocuments_eq_ok h
    refine ⟨hread, fun item hitem => ?_, encard_le_of_mem_iff (fun item => (hitems item).symm) hlength⟩
    obtain ⟨first, -, hfirst⟩ := exists_found_of_mem hadds ((hitems item).mpr hitem)
    exact ⟨first, hfirst⟩
  · intro hscannable
    cases hloop : collectLoop fs [[]] .start with
    | ok scan => exact ⟨_, congrArg (Except.map _) hloop⟩
    | error error =>
      exfalso
      obtain ⟨directories, directory, rest, scan', htaken, hfold, herror⟩ :=
        taken_of_collectLoop_error hloop
      obtain ⟨-, hscanned⟩ := foldlM_scanDirectory_eq_ok.mp hfold
      obtain ⟨-, found, -, rfl⟩ := foldlM_scanOne_eq_ok.mp hscanned
      -- the directory that fails is taken next, and no entry has been met before
      have hforest := forest_subdirectories fs
      have hnodup := htaken.take.nodup hforest (unrelated_singleton hforest [])
      have hreached : ∀ d ∈ directories ++ [directory], ReachedDir fs d := by
        intro d hd
        rw [reachedDir_iff_below, htaken.take.below_iff]
        exact Or.inl hd
      have hentries : ∀ item ∈ (directories ++ [directory]).flatMap (ownItems fs),
          ReachedEntry fs item := by
        intro item hitem
        obtain ⟨d, hd, hown⟩ := List.mem_flatMap.mp hitem
        obtain ⟨rfl, hlisting⟩ := mem_ownItems.mp hown
        exact ⟨hreached _ hd, hlisting⟩
      have hbound := length_le_of_encard_le hscannable.bounded (nodup_flatMap_ownItems hnodup) hentries
      rw [List.flatMap_append, List.flatMap_singleton, List.length_append] at hbound
      have hown : ∀ item ∈ ownItems fs directory, ∃ found, Adds item found := by
        intro item hitem
        refine hscannable.entries item (hentries item ?_)
        rw [List.flatMap_append, List.flatMap_singleton]
        exact List.mem_append_right _ hitem
      obtain ⟨more, hmore⟩ := exists_forall₂_adds hown
      have hcount : (Scan.start.add (directories.flatMap (ownItems fs)).length (gather found)).scanned +
          (ownItems fs directory).length ≤ maxScannedEntries := by
        show 0 + _ + _ ≤ _
        omega
      have hok := scanDirectory_eq_ok.mpr
        ⟨hscannable.directories directory (hreached directory (by simp)),
          foldlM_scanOne_eq_ok.mpr ⟨Or.inr hcount, more, hmore, rfl⟩⟩
      rw [herror] at hok
      exact nomatch hok

/-- What different entries contribute has different paths. -/
theorem nodup_keys {β : Type} {found : List (List DocumentInput × List IngestDiagnostic)}
    {pick : List DocumentInput × List IngestDiagnostic → List β} {key : β → String}
    (hkey : ∀ {item one b}, Adds item one → b ∈ pick one →
      normalizedPath (item.1 ++ [item.2.name]) = .ok (key b))
    (hpick : ∀ {item one}, Adds item one → (pick one).length ≤ 1) (h : List.Forall₂ Adds items found)
    (hnodup : items.Nodup) (hreached : ∀ item ∈ items, ReachedEntry fs item) :
    ((found.flatMap pick).map key).Nodup := by
  induction h with
  | nil => exact List.nodup_nil
  | @cons item one items found hadds hrest ih =>
    obtain ⟨hitem, hnodup⟩ := List.nodup_cons.mp hnodup
    obtain ⟨hfirst, hreached⟩ := List.forall_mem_cons.mp hreached
    rw [List.flatMap_cons, List.map_append]
    refine List.nodup_append.mpr ⟨?_, ih hnodup hreached, ?_⟩
    · have hlength := hpick hadds
      cases hone : pick one with
      | nil => exact List.nodup_nil
      | cons b rest =>
        rw [hone, List.length_cons] at hlength
        obtain rfl : rest = [] := List.eq_nil_of_length_eq_zero (by omega)
        exact List.nodup_singleton _
    · -- the same path is that of the same entry
      intro path hpath path' hpath' heq
      obtain ⟨b, hb, rfl⟩ := List.mem_map.mp hpath
      obtain ⟨b', hb', rfl⟩ := List.mem_map.mp hpath'
      obtain ⟨other, hother, hb'⟩ := List.mem_flatMap.mp hb'
      obtain ⟨item', hitem', hadds'⟩ := exists_item_of_mem hrest hother
      have hsecond := hreached item' hitem'
      have hsame := normalizedPath_injective hfirst.proper hsecond.proper (by simp) (by simp)
        (hkey hadds hb) (heq ▸ hkey hadds' hb')
      exact hitem (hfirst.eq_of_path hsecond hsame ▸ hitem')

/-- **The collected documents**: every document of the tree once, in path order, and a diagnostic for
    exactly those that are too large or not UTF-8. -/
theorem collectDocuments_exact (h : collectDocuments fs = .ok (documents, diagnostics)) :
    documents.Pairwise (fun d d' => compare d.path d'.path = .lt) ∧
      (∀ d, d ∈ documents ↔ ∃ item length, ReachedEntry fs item ∧
        DocumentFile item d.path length (.text d.content) ∧ length ≤ maxDocumentBytes) ∧
      diagnostics.Nodup ∧
      ∀ d, d ∈ diagnostics ↔ ∃ item relative length text, ReachedEntry fs item ∧
        DocumentFile item relative length text ∧
        (maxDocumentBytes < length ∧ d = tooLarge relative ∨
          length ≤ maxDocumentBytes ∧ text = .invalidData ∧ d = notUtf8 relative) := by
  obtain ⟨-, items, hnodup, hitems, -, found, hadds, rfl, rfl⟩ := collectDocuments_eq_ok h
  have hreached : ∀ item ∈ items, ReachedEntry fs item := fun item => (hitems item).mp
  refine ⟨?_, fun d => ?_, ?_, fun d => ?_⟩
  · apply sortBy_pairwise_key_lt
    refine nodup_keys (fun hone hd => ?_) (fun hone => ?_) hadds hnodup hreached
    · cases hone with
      | document hfile hsmall =>
        obtain rfl := List.mem_singleton.mp hd
        exact hfile.path
      | _ => exact absurd hd List.not_mem_nil
    · cases hone <;> simp
  · rw [mem_sortBy]
    constructor
    · intro hd
      obtain ⟨one, hone, hd⟩ := List.mem_flatMap.mp hd
      obtain ⟨item, hitem, hone⟩ := exists_item_of_mem hadds hone
      cases hone with
      | @document relative length content hfile hsmall =>
        obtain rfl := List.mem_singleton.mp hd
        exact ⟨item, length, hreached item hitem, hfile, hsmall⟩
      | _ => exact absurd hd List.not_mem_nil
    · rintro ⟨item, length, hitem, hfile, hsmall⟩
      obtain ⟨one, hone, hadds⟩ := exists_found_of_mem hadds ((hitems item).mpr hitem)
      rw [hadds.unique (.document hfile hsmall)] at hone
      exact List.mem_flatMap.mpr ⟨_, hone, List.mem_singleton_self _⟩
  · apply List.Nodup.of_map IngestDiagnostic.sourceLocator
    refine nodup_keys (fun hone hd => ?_) (fun hone => ?_) hadds hnodup hreached
    · cases hone with
      | tooLarge hfile hlarge =>
        obtain rfl := List.mem_singleton.mp hd
        exact hfile.path
      | notUtf8 hfile hsmall =>
        obtain rfl := List.mem_singleton.mp hd
        exact hfile.path
      | _ => exact absurd hd List.not_mem_nil
    · cases hone <;> simp
  · constructor
    · intro hd
      obtain ⟨one, hone, hd⟩ := List.mem_flatMap.mp hd
      obtain ⟨item, hitem, hone⟩ := exists_item_of_mem hadds hone
      cases hone with
      | tooLarge hfile hlarge =>
        exact ⟨item, _, _, _, hreached item hitem, hfile, Or.inl ⟨hlarge, List.mem_singleton.mp hd⟩⟩
      | notUtf8 hfile hsmall =>
        exact ⟨item, _, _, _, hreached item hitem, hfile,
          Or.inr ⟨hsmall, rfl, List.mem_singleton.mp hd⟩⟩
      | _ => exact absurd hd List.not_mem_nil
    · rintro ⟨item, relative, length, text, hitem, hfile, ⟨hlarge, rfl⟩ | ⟨hsmall, rfl, rfl⟩⟩
      · obtain ⟨one, hone, hadds⟩ := exists_found_of_mem hadds ((hitems item).mpr hitem)
        rw [hadds.unique (.tooLarge hfile hlarge)] at hone
        exact List.mem_flatMap.mpr ⟨_, hone, List.mem_singleton_self _⟩
      · obtain ⟨one, hone, hadds⟩ := exists_found_of_mem hadds ((hitems item).mpr hitem)
        rw [hadds.unique (.notUtf8 hfile hsmall)] at hone
        exact List.mem_flatMap.mpr ⟨_, hone, List.mem_singleton_self _⟩

end Results

/-- A root with one document in it. -/
def sampleTree : FileSystem where
  readDir path :=
    if path = [] then
      .ok { entries := [⟨fileName "a.md", .ok (.file (.ok 2) (.text "hi"))⟩]
            distinct := by decide
            proper := by
              intro entry hentry
              rw [List.mem_singleton.mp hentry]
              exact ⟨by decide, by decide, by decide, by decide⟩ }
    else .error "no such directory"

theorem reachedEntry_sample :
    ReachedEntry sampleTree ([], ⟨fileName "a.md", .ok (.file (.ok 2) (.text "hi"))⟩) :=
  ⟨.root, _, rfl, List.mem_singleton_self _⟩

theorem normalizedPath_sample : normalizedPath [fileName "a.md"] = .ok "a.md" :=
  normalizedPath_eq_ok.mpr ⟨["a.md"], .cons (toStr_fileName "a.md") .nil, rfl⟩

end Rationale.Engine
