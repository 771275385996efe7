import Rationale.Engine.ScanRun

namespace Rationale.Engine

open Std Rationale.Library Rationale.Text Rationale.Docs

/-!
# What the scan agrees with

* `collectDocuments_congr` — the scan does not depend on the order in which the file system lists the
  entries of a directory;
* `collected_of_collectDocuments` — its diagnostics are those that a synchronization expects of it;
* `isDocumentPath_iff` — the files that it takes for documents are those that the ingestion of documents
  reads, and their paths are normalized already.
-/

/-! ### The order of the entries -/

section Order

variable {fs fs' : FileSystem}

/-- Two answers with the same entries in any order, or the same failure. -/
inductive SameListing : Except String Listing → Except String Listing → Prop where
  | failed (detail : String) : SameListing (.error detail) (.error detail)
  | listed {listing listing' : Listing} (h : listing.entries.Perm listing'.entries) :
      SameListing (.ok listing) (.ok listing')

/-- Sorting forgets the order of a listing. -/
theorem sorted_eq_of_perm {listing listing' : Listing} (h : listing.entries.Perm listing'.entries) :
    listing.sorted = listing'.sorted := by
  apply sortBy_eq_of_perm h
  intro entry hentry entry' hentry' heq
  have hname : entry.name = entry'.name := Std.compare_eq_iff_eq.mp heq
  exact List.inj_on_of_nodup_map listing.distinct hentry hentry' hname

theorem collectLoop_congr (h : ∀ directory, SameListing (fs.readDir directory) (fs'.readDir directory))
    (stack : List DirPath) (scan : Scan) : collectLoop fs stack scan = collectLoop fs' stack scan := by
  have hturn : ∀ scan directory, scanDirectory fs scan directory = scanDirectory fs' scan directory := by
    intro scan directory
    have hsame := h directory
    unfold scanDirectory
    generalize fs.readDir directory = answer, fs'.readDir directory = answer' at hsame ⊢
    cases hsame with
    | failed detail => rfl
    | listed hperm =>
      dsimp only
      rw [sorted_eq_of_perm hperm]
  have hsubs : ∀ directory, subdirectories fs directory = subdirectories fs' directory := by
    intro directory
    have hsame := h directory
    unfold subdirectories
    generalize fs.readDir directory = answer, fs'.readDir directory = answer' at hsame ⊢
    cases hsame with
    | failed detail => rfl
    | listed hperm =>
      dsimp only
      rw [sorted_eq_of_perm hperm]
  induction hmeasure : scanMeasure stack scan using Nat.strong_induction_on generalizing stack scan with
  | _ measure ih =>
    cases stack with
    | nil => rw [collectLoop_nil, collectLoop_nil]
    | cons directory stack =>
      rw [collectLoop_cons, collectLoop_cons, ← hturn, ← hsubs]
      cases hscan : scanDirectory fs scan directory with
      | error error => rfl
      | ok next =>
        have hlt := @scanMeasure_scanDirectory fs directory stack _ _ hscan
        exact ih _ (hmeasure ▸ hlt) _ _ rfl

/-- **The order of the entries** does not matter, not even for what fails first. -/
theorem collectDocuments_congr
    (h : ∀ directory, SameListing (fs.readDir directory) (fs'.readDir directory)) :
    collectDocuments fs = collectDocuments fs' := by
  unfold collectDocuments
  rw [collectLoop_congr h]

end Order

/-- Every directory holds a document and a link, in one order or the other. -/
def twoEntries (linkFirst : Bool) : FileSystem where
  readDir _ :=
    let document : DirEntry := ⟨fileName "a.md", .ok (.file (.ok 2) (.text "hi"))⟩
    let link : DirEntry := ⟨fileName "b", .ok .symlink⟩
    .ok { entries := if linkFirst then [link, document] else [document, link]
          distinct := by cases linkFirst <;> decide
          proper := by
            intro entry hentry
            have hpair : entry = document ∨ entry = link := by
              cases linkFirst
              · simpa using hentry
              · simpa [or_comm] using hentry
            rcases hpair with rfl | rfl <;> exact ⟨by decide, by decide, by decide, by decide⟩ }

theorem collectDocuments_congr_twoEntries :
    collectDocuments (twoEntries true) = collectDocuments (twoEntries false) :=
  collectDocuments_congr fun _ => .listed (List.Perm.swap _ _ [])

/-- The diagnostics of a scan are those of `collect_documents`. -/
theorem collected_of_collectDocuments {fs : FileSystem} {documents : List DocumentInput}
    {diagnostics : List IngestDiagnostic} (h : collectDocuments fs = .ok (documents, diagnostics)) :
    ∀ d ∈ diagnostics, Collected d := by
  obtain ⟨-, -, -, hdiagnostics⟩ := collectDocuments_exact h
  intro d hd
  obtain ⟨item, relative, length, text, -, -, ⟨-, rfl⟩ | ⟨-, -, rfl⟩⟩ := (hdiagnostics d).mp hd
  · exact .fileTooLarge relative
  · exact .invalidUtf8 relative

/-! ### Document paths -/

section Paths

variable {relative : String} {name before after stem : List Char} {path : DirPath} {parts : List String}

/-- `Path::extension` of a last component. -/
def nameExtension (name : List Char) : Option (List Char) :=
  match rsplitOnce '.' name with
  | some (before, after) => if before = [] then none else some after
  | none => none

/-- `Path::file_stem` of a last component. -/
def nameStem (name : List Char) : List Char :=
  match rsplitOnce '.' name with
  | some (before, _) => if before = [] then name else before
  | none => name

/-- The last dot of a name, looked for in its parts. -/
theorem extension_eq (hlast : lastComponent relative = some name) (hname : name ≠ ['.', '.']) :
    extension relative = nameExtension name := by
  unfold extension
  rw [show List.getLast? _ = some name from hlast]
  dsimp only
  rw [if_neg hname]
  unfold nameExtension
  cases hdot : rsplitOnce '.' name with
  | none =>
    rw [List.splitOn_eq_singleton (rsplitOnce_eq_none.mp hdot)]
    rfl
  | some parts =>
    obtain ⟨before, after⟩ := parts
    obtain ⟨rfl, hafter⟩ := rsplitOnce_eq_some.mp hdot
    obtain ⟨part, others, hsplit⟩ := List.exists_cons_of_ne_nil
      (mt List.reverse_eq_nil_iff.mp (List.splitOn_ne_nil '.' before))
    have hiff : (part = [] ∧ others = []) ↔ before = [] := by
      constructor
      · rintro ⟨rfl, rfl⟩
        rw [← @List.intercalate_splitOn _ before _ _ '.', List.reverse_eq_iff.mp hsplit]
        rfl
      · rintro rfl
        have heq : [[]] = part :: others := hsplit
        simpa [eq_comm] using heq
    rw [List.splitOn_append_cons_self, List.splitOn_eq_singleton hafter, List.reverse_append, hsplit]
    show (if part = [] ∧ others = [] then none else some after) = if before = [] then none else some after
    rw [if_congr hiff rfl rfl]

theorem fileStem_eq (hlast : lastComponent relative = some name) (hname : name ≠ ['.', '.']) :
    fileStem relative = some (nameStem name) := by
  unfold fileStem nameStem
  rw [hlast]
  dsimp only
  rw [if_neg hname]
  cases rsplitOnce '.' name with
  | none => rfl
  | some parts => rfl

/-- A lower-case extension after a lower-case end of the stem, in a name and in its parts. -/
theorem dotted_suffix_iff {ending ext : List Char} (hending : ending ≠ []) (hext : '.' ∉ ext) :
    ending ++ '.' :: ext <:+ toAsciiLowercase name ↔
      (nameExtension name).map toAsciiLowercase = some ext ∧
        ending <:+ toAsciiLowercase (nameStem name) := by
  constructor
  · rintro ⟨first, hname⟩
    rw [← List.append_assoc] at hname
    -- the dot is one of the name, and the last one
    obtain ⟨before, rest, rfl, hbefore, hrest⟩ := List.map_eq_append_iff.mp hname.symm
    obtain ⟨c, after, rfl, hc, hafter⟩ := List.map_eq_cons_iff.mp hrest
    obtain rfl := eq_dot_of_toLower hc
    have hdot : '.' ∉ after := by
      intro hmem
      apply hext
      rw [← hafter]
      exact List.mem_map.mpr ⟨'.', hmem, rfl⟩
    have hne : before ≠ [] := by
      rintro rfl
      exact hending (List.append_eq_nil_iff.mp hbefore.symm).2
    have hsplit : rsplitOnce '.' (before ++ '.' :: after) = some (before, after) :=
      rsplitOnce_eq_some.mpr ⟨rfl, hdot⟩
    unfold nameExtension nameStem
    rw [hsplit]
    dsimp only
    rw [if_neg hne, if_neg hne]
    exact ⟨congrArg some hafter, first, hbefore.symm⟩
  · rintro ⟨hextension, hstem⟩
    unfold nameExtension at hextension
    unfold nameStem at hstem
    cases hdot : rsplitOnce '.' name with
    | none =>
      rw [hdot] at hextension
      exact nomatch hextension
    | some parts =>
      obtain ⟨before, after⟩ := parts
      rw [hdot] at hextension hstem
      dsimp only at hextension hstem
      by_cases hne : before = []
      · rw [if_pos hne] at hextension
        exact nomatch hextension
      · rw [if_neg hne] at hextension hstem
        obtain ⟨rfl, -⟩ := rsplitOnce_eq_some.mp hdot
        obtain ⟨first, hfirst⟩ := hstem
        have hafter : toAsciiLowercase after = ext := Option.some.inj hextension
        refine ⟨first, ?_⟩
        rw [← List.append_assoc, hfirst, ← hafter]
        simp [toAsciiLowercase]

/-- The parts of a scanned path: no part is empty, `.` or `..`. -/
theorem part_proper {name : FileName} {text : String} (hname : ProperName name)
    (h : toStr name = some text) : text ≠ "" ∧ text ≠ "." ∧ text ≠ ".." := by
  have hbytes := toByteArray_of_toStr h
  have hlist : text.toByteArray.data.toList = name := by rw [hbytes]
  refine ⟨?_, ?_, ?_⟩ <;> rintro rfl
  · exact hname.ne_nil hlist.symm
  · exact hname.ne_dot hlist.symm
  · exact hname.ne_dots hlist.symm

/-- The last part of a text between slashes. -/
theorem eq_or_append_of_splitOn {text last : List Char} {parts : List (List Char)}
    (h : text.splitOn '/' = parts ++ [last]) : text = last ∨ ∃ before, text = before ++ '/' :: last := by
  cases hslash : rsplitOnce '/' text with
  | none =>
    rw [List.splitOn_eq_singleton (rsplitOnce_eq_none.mp hslash)] at h
    have hlast := (List.append_inj' (show [] ++ [text] = parts ++ [last] from h) rfl).2
    exact Or.inl (List.singleton_inj.mp hlast)
  | some found =>
    obtain ⟨before, after⟩ := found
    obtain ⟨rfl, hafter⟩ := rsplitOnce_eq_some.mp hslash
    rw [List.splitOn_append_cons_self, List.splitOn_eq_singleton hafter] at h
    have hlast := (List.append_inj' h rfl).2
    exact Or.inr ⟨before, by rw [List.singleton_inj.mp hlast]⟩

/-- A lower-case ending without slashes is one of the last part. -/
theorem suffix_lowercase_iff {text last suf : List Char} {parts : List (List Char)}
    (h : text.splitOn '/' = parts ++ [last]) (hsuf : '/' ∉ suf) :
    suf <:+ toAsciiLowercase text ↔ suf <:+ toAsciiLowercase last := by
  rcases eq_or_append_of_splitOn h with rfl | ⟨before, rfl⟩
  · rfl
  · rw [show toAsciiLowercase (before ++ '/' :: last) =
      toAsciiLowercase before ++ '/' :: toAsciiLowercase last by simp [toAsciiLowercase]]
    exact suffix_append_cons_iff hsuf

/-- **Document paths** are those of Markdown files and of verification manifests. -/
theorem isDocumentPath_iff_of_last {parts : List (List Char)}
    (hsplit : relative.toList.splitOn '/' = parts ++ [name])
    (hlast : lastComponent relative = some name) (hname : name ≠ ['.', '.']) :
    isDocumentPath relative = true ↔
      isVerificationManifest relative = true ∨ hasExtension relative "md" = true := by
  have hmanifest : ∀ ext : List Char, '.' ∉ ext → '/' ∉ ext →
      ((".rationale".toList ++ '.' :: ext).isSuffixOf (toAsciiLowercase relative.toList) = true ↔
        (nameExtension name).map toAsciiLowercase = some ext ∧
          ".rationale".toList.isSuffixOf (toAsciiLowercase (nameStem name)) = true) := by
    intro ext hdot hslash
    rw [List.isSuffixOf_iff_suffix, List.isSuffixOf_iff_suffix]
    rw [suffix_lowercase_iff hsplit (by simpa using hslash)]
    exact dotted_suffix_iff (by decide) hdot
  have htoml := hmanifest "toml".toList (by decide) (by decide)
  have hyaml := hmanifest "yaml".toList (by decide) (by decide)
  have hyml := hmanifest "yml".toList (by decide) (by decide)
  have hmarkdown : hasExtension relative "md" = true ↔
      (nameExtension name).map toAsciiLowercase = some "md".toList := by
    unfold hasExtension
    rw [extension_eq hlast hname]
    cases nameExtension name with
    | none => simp
    | some ext =>
      have hmd : toAsciiLowercase "md".toList = "md".toList := by decide
      rw [hmd, Option.map_some, Option.some.injEq]
      exact decide_eq_true_iff
  rw [hmarkdown]
  unfold isDocumentPath isVerificationManifest
  rw [fileStem_eq hlast hname, extension_eq hlast hname]
  dsimp only
  rw [Bool.or_eq_true, Bool.or_eq_true]
  rw [show ".rationale.toml".toList = ".rationale".toList ++ '.' :: "toml".toList from rfl,
    show ".rationale.yaml".toList = ".rationale".toList ++ '.' :: "yaml".toList from rfl,
    show ".rationale.yml".toList = ".rationale".toList ++ '.' :: "yml".toList from rfl,
    htoml, hyaml, hyml]
  by_cases hmd : (nameExtension name).map toAsciiLowercase = some "md".toList
  · rw [if_pos hmd]
    simp [hmd]
  · rw [if_neg hmd]
    simp only [hmd, or_false]
    simp only [List.contains_cons, List.contains_nil, Bool.or_false, Bool.and_eq_true, Bool.or_eq_true,
      beq_iff_eq, Option.any_some]
    rw [← or_and_right, ← or_and_right, or_assoc]

/-- Parts that a join keeps are kept by the normalization of a document's path. -/
theorem normalizeComponents_eq_self {parts : List (List Char)}
    (h : ∀ part ∈ parts, part ≠ [] ∧ part ≠ ['.'] ∧ part ≠ ['.', '.'] ∧ part ≠ ['.', 'g', 'i', 't']) :
    normalizeComponents parts = .ok parts := by
  induction parts with
  | nil => rfl
  | cons part parts ih =>
    obtain ⟨⟨hne, hdot, hdots, hgit⟩, hrest⟩ := List.forall_mem_cons.mp h
    rw [normalizeComponents, if_neg (by simp [hne, hdot]), if_neg hdots, if_neg hgit, ih hrest]
    rfl

theorem normalizePath_eq_self {parts : List (List Char)} (hne : parts ≠ [])
    (hsplit : relative.toList.splitOn '/' = parts)
    (h : ∀ part ∈ parts, part ≠ [] ∧ part ≠ ['.'] ∧ part ≠ ['.', '.'] ∧ part ≠ ['.', 'g', 'i', 't']) :
    normalizePath relative = .ok relative := by
  have hhead : relative.toList.head? ≠ some '/' := by
    intro hhead
    obtain ⟨rest, hrest⟩ := List.head?_eq_some_iff.mp hhead
    have hfirst : ([] ++ '/' :: rest).splitOn '/' = [] :: rest.splitOn '/' := by
      rw [List.splitOn_append_cons_self, List.splitOn_nil, List.singleton_append]
    rw [List.nil_append, ← hrest, hsplit] at hfirst
    exact (h [] (hfirst ▸ List.mem_cons_self)).1 rfl
  have htext : String.ofList (List.intercalate ['/'] parts) = relative := by
    rw [← hsplit, List.intercalate_splitOn, String.ofList_toList]
  unfold normalizePath
  rw [if_neg hhead, hsplit, normalizeComponents_eq_self h]
  obtain ⟨part, parts, rfl⟩ := List.exists_cons_of_ne_nil hne
  show Except.ok _ = _
  rw [htext]

end Paths

/-! ### Scanned files -/

section Files

variable {fs : FileSystem} {item : DirPath × DirEntry} {relative : String}

/-- No reached path goes through an excluded directory. -/
theorem ReachedDir.scanned {directory : DirPath} (h : ReachedDir fs directory) :
    ∀ name ∈ directory, excludedDirectory name = false := by
  induction h with
  | root => simp
  | sub h hread hentry hdirectory hscanned ih =>
    intro name hname
    rcases List.mem_append.mp hname with hname | hname
    · exact ih name hname
    · rw [List.mem_singleton.mp hname]
      exact hscanned

theorem exists_name_of_part {path : DirPath} {texts : List String} {text : String}
    (h : List.Forall₂ (fun name part => toStr name = some part) path texts) (htext : text ∈ texts) :
    ∃ name ∈ path, toStr name = some text := by
  induction h with
  | nil => exact absurd htext List.not_mem_nil
  | cons hname hrest ih =>
    rcases List.mem_cons.mp htext with rfl | htext
    · exact ⟨_, List.mem_cons_self, hname⟩
    · obtain ⟨name, hmem, htoStr⟩ := ih htext
      exact ⟨name, List.mem_cons_of_mem _ hmem, htoStr⟩

/-- The parts of a reached path, and the last one of them. -/
theorem exists_parts (hitem : ReachedEntry fs item)
    (hpath : normalizedPath (item.1 ++ [item.2.name]) = .ok relative) :
    ∃ parts last, relative.toList.splitOn '/' = parts ++ [last] ∧
      (∀ part ∈ parts ++ [last], part ≠ [] ∧ part ≠ ['.'] ∧ part ≠ ['.', '.']) ∧
      ∀ part ∈ parts, part ≠ ['.', 'g', 'i', 't'] := by
  obtain ⟨texts, htexts, rfl⟩ := normalizedPath_eq_ok.mp hpath
  have hsplit := splitOn_intercalate_parts hitem.proper (by simp) htexts
  have hreverse := List.forall₂_reverse_iff.mpr htexts
  rw [List.reverse_append, List.reverse_singleton, List.singleton_append,
    List.forall₂_cons_left_iff] at hreverse
  obtain ⟨last, rest, hlast, hrest, heq⟩ := hreverse
  obtain rfl : texts = rest.reverse ++ [last] := by
    rw [← List.reverse_reverse texts, heq, List.reverse_cons]
  refine ⟨rest.reverse.map String.toList, last.toList, by simpa using hsplit, ?_, ?_⟩
  · intro part hpart
    rw [← List.map_singleton, ← List.map_append] at hpart
    obtain ⟨text, htext, rfl⟩ := List.mem_map.mp hpart
    obtain ⟨name, hname, htoStr⟩ := exists_name_of_part htexts htext
    obtain ⟨hne, hdot, hdots⟩ := part_proper (hitem.proper name hname) htoStr
    exact ⟨mt (@String.toList_inj text "").mp hne, mt (@String.toList_inj text ".").mp hdot,
      mt (@String.toList_inj text "..").mp hdots⟩
  · intro part hpart hgit
    obtain ⟨text, htext, rfl⟩ := List.mem_map.mp hpart
    obtain rfl : text = ".git" := String.toList_inj.mp hgit
    obtain ⟨name, hname, htoStr⟩ := exists_name_of_part hrest (List.mem_reverse.mp htext)
    have hscanned := hitem.1.scanned name (List.mem_reverse.mp hname)
    have hbytes := toByteArray_of_toStr htoStr
    have hname : name = fileName ".git" := (congrArg (fun bytes => bytes.data.toList) hbytes).symm
    rw [hname] at hscanned
    exact absurd hscanned (by decide)

/-- **The scan and the ingestion** take the same files for documents: of the files of the tree, those
    with a Markdown extension or the name of a verification manifest.  Their paths are normalized. -/
theorem isDocumentPath_iff (hitem : ReachedEntry fs item)
    (hpath : normalizedPath (item.1 ++ [item.2.name]) = .ok relative) :
    (isDocumentPath relative = true ↔
        isVerificationManifest relative = true ∨ hasExtension relative "md" = true) ∧
      (isDocumentPath relative = true → Docs.normalizePath relative = .ok relative) := by
  obtain ⟨parts, last, hsplit, hproper, hgit⟩ := exists_parts hitem hpath
  have hlast : lastComponent relative = some last := by
    unfold lastComponent
    rw [hsplit, List.filter_eq_self.mpr, List.getLast?_concat]
    intro part hpart
    obtain ⟨hne, hdot, -⟩ := hproper part hpart
    simp [hne, hdot]
  have hdots : last ≠ ['.', '.'] := (hproper last (by simp)).2.2
  have hiff := isDocumentPath_iff_of_last hsplit hlast hdots
  refine ⟨hiff, fun hdocument => ?_⟩
  apply normalizePath_eq_self (by simp) hsplit
  intro part hpart
  obtain ⟨hne, hdot, hdotdot⟩ := hproper part hpart
  refine ⟨hne, hdot, hdotdot, fun heq => ?_⟩
  rcases List.mem_append.mp hpart with hpart | hpart
  · exact hgit part hpart heq
  · -- a file named `.git` is no document
    obtain rfl : last = ['.', 'g', 'i', 't'] := (List.mem_singleton.mp hpart).symm.trans heq
    unfold isDocumentPath at hdocument
    rw [extension_eq hlast hdots, fileStem_eq hlast hdots] at hdocument
    exact absurd hdocument (by decide)

end Files

theorem isDocumentPath_iff_sample : Docs.normalizePath "a.md" = .ok "a.md" :=
  (isDocumentPath_iff reachedEntry_sample normalizedPath_sample).2 (by decide)

end Rationale.Engine
