import Rationale.Docs.Diagnostics
import Rationale.Engine.JsonText
import Rationale.Engine.Plan

namespace Rationale.Engine

open Std Rationale.Library Rationale.Docs Rationale.Git Rationale.GitHub Rationale.Store
open Rationale.Text

/-!
# What a snapshot identifier identifies

Two publications with one identifier, as far as their hashed texts tell them apart.

* `Prepared`, `SyncSources` — the evidence and the sources that a synchronization publishes;
* `evidenceTexts`, `sourceTexts` — the fields of the hashed text, each of which a NUL ends;
* `Disguised` — different fields that are the same once they are cut at the NULs inside them;
* `identified_iff` — the identifier identifies the state exactly when it is not disguised.
-/

/-! ### Publications of a synchronization -/

/-- What GitHub is asked with the next time. -/
structure GitHubCursor where
  issuesEtag : Option String

/-- Encode stable cursor JSON for transactional publication. -/
def GitHubCursor.encode (cursor : GitHubCursor) : String :=
  jsonObject [jsonField "issues_etag" (cursor.issuesEtag.elim "null" jsonString)]

/-- The characters of an owner or repository name. -/
def validComponent (value : String) : Bool :=
  !value.isEmpty && value ≠ "." && value ≠ ".." &&
    value.toList.all fun c => isAsciiAlphanumeric c || ['-', '_', '.'].contains c

/-- Object identifiers and digests are written in hexadecimal. -/
def isHex (text : String) : Bool :=
  text.toList.all fun c => c.isDigit || ['a', 'b', 'c', 'd', 'e', 'f'].contains c

/-- A diagnostic of `collect_documents`. -/
inductive Collected : IngestDiagnostic → Prop where
  | fileTooLarge (path : String) :
      Collected ⟨path, "file_too_large", "document exceeds the configured byte limit"⟩
  | invalidUtf8 (path : String) :
      Collected ⟨path, "invalid_utf8", "document is not valid UTF-8"⟩

/-- The evidence that a synchronization publishes: local evidence, with any contributions on top, and
    with a report of each failed refresh. -/
inductive Prepared (hash : String → String) (timestamp : Int → Option String) :
    PreparedEvidence → Prop where
  | prepare (parsers : Parsers) (config : IngestConfig) (commits : List CommitEvidence)
      (inputs : List DocumentInput) (collected : List IngestDiagnostic)
      (h : ∀ item ∈ collected, Collected item) :
      Prepared hash timestamp (prepareEvidence hash timestamp commits
        (ingest hash parsers config inputs) collected)
  | merge {evidence : PreparedEvidence} (h : Prepared hash timestamp evidence)
      (records : List EvidenceNode) (edges : List EvidenceEdge) :
      Prepared hash timestamp (mergeGithubEvidence evidence records edges)
  | unavailable {evidence : PreparedEvidence} (h : Prepared hash timestamp evidence)
      (prior : PriorGitHubContribution) (repository : GitHubRepository) :
      Prepared hash timestamp (evidence.diagnose (githubDiagnostics prior repository .failed))

/-- The cursors of the local sources: a commit, if there is one, and a digest. -/
structure LocalCursors (localSync : LocalSync) : Prop where
  head : isHex localSync.head
  documents : ∃ digest, isHex digest ∧ localSync.documentsCursor = "inputs:" ++ digest

/-- The sources that a synchronization publishes. -/
inductive SyncSources : List SourceState → Prop where
  | offline (localSync : LocalSync) (now : String) (h : LocalCursors localSync) :
      SyncSources (localSources localSync now)
  | online (localSync : LocalSync) (now : String) (h : LocalCursors localSync)
      (repository : GitHubRepository) (howner : validComponent repository.owner)
      (hname : validComponent repository.name) (freshness : Freshness) (observedAt : String)
      (cursor : Option GitHubCursor) :
      SyncSources (localSources localSync now ++
        [⟨sourceIdOf repository, .github, freshness, observedAt, cursor.map GitHubCursor.encode⟩])

/-! ### The hashed fields -/

/-- The records, edges and conflicts in the order in which they are hashed. -/
def hashedRows (evidence : PreparedEvidence) : List Row :=
  (values evidence.records).map Row.node ++ (values evidence.edges).map Row.edge ++
    evidence.conflicts.map Row.conflict

def diagnosticTexts (diagnostic : IngestDiagnostic) : List String :=
  [diagnostic.sourceLocator, diagnostic.code, diagnostic.message]

/-- The fields that the evidence contributes. -/
def evidenceTexts (evidence : PreparedEvidence) : List String :=
  (hashedRows evidence).map rowJson ++ evidence.diagnostics.flatMap diagnosticTexts

/-- The fields that a source contributes. -/
def sourceTexts (source : SourceState) : List String :=
  [source.sourceId, sourceKindJson source.sourceKind, freshnessName source.freshness,
    source.cursor.getD ""]

/-- Texts cut at the NULs inside them. -/
def cutTexts (texts : List String) : List (List Char) := cut '\x00' (texts.map String.toList)

/-- Publications with the same sources, of evidence that is written in different fields; but cut at
    the NULs inside them, the fields are the same. -/
structure Disguised (p q : Publication) : Prop where
  sources : p.timelessSources = q.timelessSources
  texts : evidenceTexts p.evidence.sorted ≠ evidenceTexts q.evidence.sorted
  pieces : cutTexts (evidenceTexts p.evidence.sorted) = cutTexts (evidenceTexts q.evidence.sorted)

/-- One identifier is one state, and a snapshot that is reused holds what was to be published. -/
structure Identified (hash : String → String) (p q : Publication) : Prop where
  state : p.snapshotId hash = q.snapshotId hash → SameState p q
  unchanged : ∀ db report db', currentSnapshotId db = some (p.snapshotId hash) →
    publishEvidence hash db q.evidence q.sources q.historyComplete q.githubRateLimit =
      .ok (report, db') → report.unchanged = true → SameState p q

section Texts

/-- One field after the other. -/
theorem toList_join_field {α : Type} (text : α → String) (l : List α) :
    (String.join (l.map fun a => text a ++ "\x00")).toList =
      terminated '\x00' ((l.map text).map String.toList) := by
  rw [String.toList_join, terminated, List.flatMap_map, List.flatMap_map, List.flatMap_map]
  exact List.flatMap_congr (fun a _ => String.toList_append)

theorem toList_join_diagnostics (diagnostics : List IngestDiagnostic) :
    (String.join (diagnostics.map fun diagnostic => diagnostic.sourceLocator ++ "\x00" ++
      diagnostic.code ++ "\x00" ++ diagnostic.message ++ "\x00")).toList =
        terminated '\x00' ((diagnostics.flatMap diagnosticTexts).map String.toList) := by
  rw [String.toList_join, terminated, List.flatMap_map, List.flatMap_map, List.flatMap_assoc]
  refine List.flatMap_congr (fun item _ => ?_)
  simp [diagnosticTexts]

theorem toList_join_sources (sources : List SourceState) :
    (String.join (sources.map sourceMaterial)).toList =
      terminated '\x00' ((sources.flatMap sourceTexts).map String.toList) := by
  rw [String.toList_join, terminated, List.flatMap_map, List.flatMap_map, List.flatMap_assoc]
  refine List.flatMap_congr (fun source _ => ?_)
  simp [sourceMaterial, sourceTexts]

/-- The name of the hashed format, before all fields. -/
def formatText : List Char := "rationale-evidence-snapshot-v2\x00".toList

/-- The hashed text is the fields, each ended by a NUL. -/
theorem toList_snapshotMaterial (evidence : PreparedEvidence) (sources : List SourceState) :
    (snapshotMaterial evidence sources).toList = formatText ++ terminated '\x00'
      ((evidenceTexts evidence ++ sources.flatMap sourceTexts).map String.toList) := by
  have hrows : (hashedRows evidence).map rowJson = (values evidence.records).map nodeJson ++
      (values evidence.edges).map edgeJson ++ evidence.conflicts.map conflictJson := by
    simp only [hashedRows, List.map_append, List.map_map]
    rfl
  unfold snapshotMaterial evidenceMaterial
  simp only [String.toList_append, toList_join_diagnostics, toList_join_sources]
  simp only [toList_join_field]
  unfold evidenceTexts
  rw [hrows]
  simp only [List.map_append, terminated_append, List.append_assoc]
  rfl

end Texts

/-! ### The evidence from its fields -/

/-- The codes of all diagnostics of a synchronization. -/
def evidenceCodes : List String :=
  documentCodes ++ ["invalid_utf8", "unresolved_reference", "unresolved_conflict",
    "github_unavailable"]

/-- A known code with a plain message; the locator can be any text. -/
structure PlainDiagnostic (item : IngestDiagnostic) : Prop where
  code : item.code ∈ evidenceCodes
  message : PlainMessage item.message

theorem plainDiagnostic_mk {code message : String} (locator : String) (hcode : code ∈ evidenceCodes)
    (hmessage : PlainMessage message) : PlainDiagnostic ⟨locator, code, message⟩ :=
  ⟨hcode, hmessage⟩

section Evidence

variable {hash : String → String} {timestamp : Int → Option String}
  {evidence evidence' : PreparedEvidence}

/-- **Every diagnostic of a synchronization** has a known code and a plain message. -/
theorem Prepared.plain (h : Prepared hash timestamp evidence) :
    ∀ item ∈ evidence.diagnostics, PlainDiagnostic item := by
  induction h with
  | prepare parsers config commits inputs collected hcollected =>
    intro item hitem
    -- from the file system, from ingestion, or for a dropped relationship or conflict
    rcases List.mem_append.mp hitem with hitem | hitem
    · rcases List.mem_append.mp hitem with hitem | hitem
      · rcases List.mem_append.mp hitem with hitem | hitem
        · cases hcollected item hitem with
          | fileTooLarge path => exact plainDiagnostic_mk path (by decide) (by decide)
          | invalidUtf8 path => exact plainDiagnostic_mk path (by decide) (by decide)
        · have hreported := reported_ingest inputs item hitem
          exact ⟨List.mem_append_left _ hreported.code, hreported.message⟩
      · obtain ⟨edge, -, rfl⟩ := List.mem_map.mp hitem
        exact plainDiagnostic_mk _ (by decide) (by decide)
    · obtain ⟨conflict, -, rfl⟩ := List.mem_map.mp hitem
      exact plainDiagnostic_mk _ (by decide) (by decide)
  | merge _ records edges ih => exact ih
  | unavailable _ prior repository ih =>
    intro item hitem
    rcases List.mem_append.mp hitem with hitem | hitem
    · exact ih item hitem
    · obtain rfl := List.mem_singleton.mp hitem
      refine plainDiagnostic_mk _ (by decide) ?_
      show PlainMessage (if prior.source.isSome then _ else _)
      split <;> decide

/-- A code is no JSON object, no freshness, and has no NUL. -/
theorem plain_code {code : String} (h : code ∈ evidenceCodes) :
    code.toList.head? ≠ some '{' ∧ '\x00' ∉ code.toList ∧
      ∀ freshness, code ≠ freshnessName freshness := by
  have hall : ∀ code ∈ evidenceCodes, code.toList.head? ≠ some '{' ∧ '\x00' ∉ code.toList ∧
      code ≠ "fresh" ∧ code ≠ "stale" := by
    decide
  obtain ⟨hbrace, hnul, hfresh, hstale⟩ := hall code h
  refine ⟨hbrace, hnul, fun freshness => ?_⟩
  cases freshness with
  | fresh => exact hfresh
  | stale => exact hstale

/-- Rows and diagnostics are told apart from the end: a code is not the text of a row. -/
theorem rows_append_diagnostics_inj {rows rows' : List Row} {items items' : List IngestDiagnostic}
    (hitems : ∀ item ∈ items, PlainDiagnostic item) (hitems' : ∀ item ∈ items', PlainDiagnostic item)
    (h : rows.map rowJson ++ items.flatMap diagnosticTexts =
      rows'.map rowJson ++ items'.flatMap diagnosticTexts) : rows = rows' ∧ items = items' := by
  -- a list of rows does not end in a diagnostic
  have hrows : ∀ (rows : List Row) (texts : List String) (item : IngestDiagnostic),
      PlainDiagnostic item → rows.map rowJson ≠ texts ++ diagnosticTexts item := by
    intro rows texts item hitem heq
    have hmem : item.code ∈ rows.map rowJson := by
      rw [heq]
      simp [diagnosticTexts]
    obtain ⟨row, -, hrow⟩ := List.mem_map.mp hmem
    exact (plain_code hitem.code).1 (hrow ▸ head_rowJson row)
  -- so both lists of diagnostics are taken apart from their ends
  induction items using List.reverseRecOn generalizing items' with
  | nil =>
    rcases List.eq_nil_or_concat items' with rfl | ⟨rest, item, rfl⟩
    · simp only [List.flatMap_nil, List.append_nil] at h
      exact ⟨List.map_injective_iff.mpr rowJson_injective h, rfl⟩
    · rw [List.concat_eq_append] at h hitems'
      rw [List.flatMap_nil, List.append_nil, List.flatMap_append, List.flatMap_singleton,
        ← List.append_assoc] at h
      exact absurd h (hrows _ _ _ (hitems' item (by simp)))
  | append_singleton rest item ih =>
    rw [List.flatMap_append, List.flatMap_singleton, ← List.append_assoc] at h
    rcases List.eq_nil_or_concat items' with rfl | ⟨rest', item', rfl⟩
    · rw [List.flatMap_nil, List.append_nil] at h
      exact absurd h.symm (hrows _ _ _ (hitems item (by simp)))
    · rw [List.concat_eq_append] at h hitems' ⊢
      rw [List.flatMap_append, List.flatMap_singleton, ← List.append_assoc] at h
      obtain ⟨hfront, hlast⟩ := List.append_inj' h rfl
      have hitem : item = item' := by
        cases item
        cases item'
        simpa [diagnosticTexts] using hlast
      obtain ⟨hrowsEq, hrest⟩ := ih (fun item hmem => hitems item (List.mem_append_left _ hmem))
        (fun item hmem => hitems' item (List.mem_append_left _ hmem)) hfront
      exact ⟨hrowsEq, by rw [hrest, hitem]⟩

def Row.node? : Row → Option EvidenceNode
  | .node record => some record
  | _ => none

def Row.edge? : Row → Option EvidenceEdge
  | .edge relation => some relation
  | _ => none

def Row.conflict? : Row → Option Conflict
  | .conflict opposed => some opposed
  | _ => none

/-- The rows of evidence are its records, edges and conflicts. -/
theorem hashedRows_inj (h : hashedRows evidence = hashedRows evidence') :
    values evidence.records = values evidence'.records ∧
      values evidence.edges = values evidence'.edges ∧ evidence.conflicts = evidence'.conflicts := by
  -- the kind of a row tells which of the three lists it is from
  refine ⟨?_, ?_, ?_⟩
  · have hnodes := congrArg (List.filterMap Row.node?) h
    simpa [hashedRows, List.filterMap_append, List.filterMap_map, Function.comp_def,
      Row.node?] using hnodes
  · have hedges := congrArg (List.filterMap Row.edge?) h
    simpa [hashedRows, List.filterMap_append, List.filterMap_map, Function.comp_def,
      Row.edge?] using hedges
  · have hconflicts := congrArg (List.filterMap Row.conflict?) h
    simpa [hashedRows, List.filterMap_append, List.filterMap_map, Function.comp_def,
      Row.conflict?] using hconflicts

end Evidence

/-! ### The sources from their fields -/

/-- No field of the source has a NUL.  Git's cursor is there, and the others are not empty. -/
structure PlainSource (source : SourceState) : Prop where
  texts : ∀ text ∈ sourceTexts source, '\x00' ∉ text.toList
  git : source.sourceKind = .git → source.cursor ≠ none
  others : source.sourceKind ≠ .git → source.cursor ≠ some ""

section Sources

variable {sources sources' : List SourceState} {source source' : SourceState}

theorem notMem_of_isHex {text : String} (h : isHex text) : '\x00' ∉ text.toList := by
  intro hmem
  exact absurd (List.all_eq_true.mp h _ hmem) (by decide)

theorem notMem_of_validComponent {value : String} (h : validComponent value) :
    '\x00' ∉ value.toList := by
  intro hmem
  unfold validComponent at h
  have hall := (Bool.and_eq_true_iff.mp h).2
  exact absurd (List.all_eq_true.mp hall _ hmem) (by decide)

/-- The cursor of GitHub is an object. -/
theorem toList_encode (cursor : GitHubCursor) : cursor.encode.toList = '{' :: (key "issues_etag" ++
    ((cursor.issuesEtag.elim "null" jsonString).toList ++ ['}'])) := by
  show (jsonObject (some _ :: _)).toList = _
  rw [toList_jsonObject, toList_field]
  simp

theorem notMem_encode (cursor : GitHubCursor) : '\x00' ∉ cursor.encode.toList := by
  have hetag : '\x00' ∉ (cursor.issuesEtag.elim "null" jsonString).toList := by
    cases cursor.issuesEtag with
    | none => exact (by decide : '\x00' ∉ "null".toList)
    | some etag => exact notMem_jsonString etag
  rw [toList_encode]
  simp only [List.mem_cons, List.mem_append, not_or]
  exact ⟨by decide, by decide, hetag, by decide, List.not_mem_nil⟩

theorem encode_ne_empty (cursor : GitHubCursor) : cursor.encode ≠ "" := by
  intro h
  have hlist := toList_encode cursor
  rw [h] at hlist
  exact nomatch hlist

theorem notMem_freshnessName (freshness : Freshness) : '\x00' ∉ (freshnessName freshness).toList := by
  cases freshness <;> decide

/-- The fields of plain sources determine them, apart from their times. -/
theorem timeless_eq_of_sourceTexts (h : PlainSource source) (h' : PlainSource source')
    (heq : sourceTexts source = sourceTexts source') :
    SourceState.timeless source = SourceState.timeless source' := by
  simp only [sourceTexts, List.cons.injEq, and_true] at heq
  obtain ⟨hid, hkind, hfreshness, hcursor⟩ := heq
  have hkinds : source.sourceKind = source'.sourceKind :=
    prefixCode_sourceKindJson.injective (congrArg String.toList hkind)
  have hfresh : source.freshness = source'.freshness := by
    revert hfreshness
    cases source.freshness <;> cases source'.freshness <;> simp [freshnessName]
  have hcursors : source.cursor = source'.cursor := by
    have hgit := h.git
    have hgit' := h'.git
    have hothers := h.others
    have hothers' := h'.others
    rw [← hkinds] at hgit' hothers'
    -- an absent cursor is written like an empty one, but only one of them can occur
    cases hc : source.cursor <;> cases hc' : source'.cursor <;>
      by_cases hkind : source.sourceKind = .git <;> simp_all
  unfold SourceState.timeless
  rw [hid, hkinds, hfresh, hcursors]

/-- Lists of plain sources of one length are determined by their fields. -/
theorem timeless_eq_of_flatMap (hlength : sources.length = sources'.length)
    (h : ∀ source ∈ sources, PlainSource source) (h' : ∀ source ∈ sources', PlainSource source)
    (heq : sources.flatMap sourceTexts = sources'.flatMap sourceTexts) :
    sources.map SourceState.timeless = sources'.map SourceState.timeless := by
  induction sources generalizing sources' with
  | nil =>
    rw [List.eq_nil_of_length_eq_zero hlength.symm]
  | cons source sources ih =>
    cases sources' with
    | nil => exact nomatch hlength
    | cons source' sources' =>
      obtain ⟨hsource, hsources⟩ := List.forall_mem_cons.mp h
      obtain ⟨hsource', hsources'⟩ := List.forall_mem_cons.mp h'
      obtain ⟨hfirst, hrest⟩ := List.append_inj heq rfl
      rw [List.map_cons, List.map_cons, timeless_eq_of_sourceTexts hsource hsource' hfirst,
        ih (Nat.succ.inj hlength) hsources hsources' hrest]

theorem flatMap_sourceTexts_timeless :
    (sources.map SourceState.timeless).flatMap sourceTexts = sources.flatMap sourceTexts := by
  rw [List.flatMap_map]
  rfl

/-- The sources of a synchronization are plain. -/
theorem SyncSources.plain (h : SyncSources sources) : ∀ source ∈ sources, PlainSource source := by
  have hlocal : ∀ localSync now, LocalCursors localSync →
      ∀ source ∈ localSources localSync now, PlainSource source := by
    intro localSync now hcursors
    obtain ⟨digest, hdigest, hdocuments⟩ := hcursors.documents
    have hnul : '\x00' ∉ localSync.documentsCursor.toList := by
      rw [hdocuments, String.toList_append, List.mem_append, not_or]
      exact ⟨by decide, notMem_of_isHex hdigest⟩
    -- the documents' cursor starts with a fixed text
    have hempty : localSync.documentsCursor ≠ "" := by
      intro h
      rw [hdocuments] at h
      have hlist := congrArg String.toList h
      rw [String.toList_append] at hlist
      exact nomatch hlist
    refine List.forall_mem_cons.mpr ⟨⟨?_, by simp, by simp⟩,
      List.forall_mem_cons.mpr ⟨⟨?_, by simp, by simpa using hempty⟩, by simp⟩⟩
    · simp only [sourceTexts, List.forall_mem_cons, List.not_mem_nil, false_implies, implies_true,
        and_true]
      exact ⟨by decide, by decide, notMem_freshnessName _, notMem_of_isHex hcursors.head⟩
    · simp only [sourceTexts, List.forall_mem_cons, List.not_mem_nil, false_implies, implies_true,
        and_true]
      exact ⟨by decide, by decide, by decide, hnul⟩
  cases h with
  | offline localSync now hcursors => exact hlocal localSync now hcursors
  | online localSync now hcursors repository howner hname freshness observedAt cursor =>
    intro source hsource
    -- GitHub is one source more, after the local ones
    rcases List.mem_append.mp hsource with hsource | hsource
    · exact hlocal localSync now hcursors source hsource
    obtain rfl := List.mem_singleton.mp hsource
    refine ⟨?_, (fun hkind => nomatch hkind), fun _ => ?_⟩
    · have hid : '\x00' ∉ (sourceIdOf repository).toList := by
        unfold sourceIdOf GitHubRepository.slug
        simp only [String.toList_append, List.mem_append, not_or]
        exact ⟨by decide, ⟨notMem_of_validComponent howner, by decide⟩,
          notMem_of_validComponent hname⟩
      have hcursor : '\x00' ∉ ((cursor.map GitHubCursor.encode).getD "").toList := by
        cases cursor with
        | none => exact (by decide : '\x00' ∉ "".toList)
        | some cursor => exact notMem_encode cursor
      simp only [sourceTexts, List.forall_mem_cons, List.not_mem_nil, false_implies, implies_true,
        and_true]
      exact ⟨hid, by decide, notMem_freshnessName _, hcursor⟩
    · cases cursor with
      | none => exact fun h => nomatch h
      | some cursor => exact fun h => encode_ne_empty cursor (Option.some.inj h)

/-- GitHub's identifiers come before those of the local sources. -/
theorem compare_sourceIdOf (repository : GitHubRepository) {name : String} {c : Char}
    {rest : List Char} (hname : name.toList = c :: rest) (h : 'g' < c) :
    compare name (sourceIdOf repository) = .gt := by
  have hlt : sourceIdOf repository < name := by
    show (sourceIdOf repository).toList < name.toList
    unfold sourceIdOf
    rw [hname, String.toList_append]
    exact List.Lex.rel h
  have hcompare : compare (sourceIdOf repository) name = .lt := by
    show (if _ < _ then Ordering.lt else _) = .lt
    rw [if_pos hlt]
  exact OrientedCmp.gt_iff_lt.mpr hcompare

theorem sortSources_three {git documents github : SourceState}
    (hgit : compare git.sourceId github.sourceId = .gt)
    (hdocuments : compare documents.sourceId github.sourceId = .gt)
    (hlocal : compare git.sourceId documents.sourceId = .lt) :
    sortSources [git, documents, github] = [github, git, documents] := by
  simp [sortSources, sortBy, List.insertionSort, List.orderedInsert, compareOn, hgit, hdocuments,
    hlocal]

/-- The local sources are last, after GitHub if it is there. -/
theorem SyncSources.sorted (h : SyncSources sources) : ∃ git documents,
    sortSources sources = [git, documents] ∨
      ∃ github, sortSources sources = [github, git, documents] := by
  cases h with
  | offline localSync now hcursors =>
    refine ⟨_, _, Or.inl (sortBy_eq_self ?_)⟩
    refine List.pairwise_cons.mpr ⟨fun source hsource => ?_, List.pairwise_singleton _ _⟩
    obtain rfl := List.mem_singleton.mp hsource
    show (compare "local-git" "repository-documents").isLE
    decide
  | online localSync now hcursors repository howner hname freshness observedAt cursor =>
    have hgit := @compare_sourceIdOf repository "local-git" 'l' _ rfl (by decide)
    have hdocuments := @compare_sourceIdOf repository "repository-documents" 'r' _ rfl (by decide)
    have hlocal : compare "local-git" "repository-documents" = .lt := by decide
    exact ⟨_, _, Or.inr ⟨_, sortSources_three hgit hdocuments hlocal⟩⟩

end Sources

/-! ### The state from its identifier -/

/-- The text that a publication's identifier is hashed from. -/
def Publication.hashedText (p : Publication) : String :=
  snapshotMaterial p.evidence.sorted (sortSources p.sources)

section Identifier

variable {hash : String → String} {timestamp : Int → Option String}
  {evidence evidence' : PreparedEvidence} {sources sources' : List SourceState}
  {p q : Publication}

theorem cutTexts_append (texts texts' : List String) :
    cutTexts (texts ++ texts') = cutTexts texts ++ cutTexts texts' := by
  unfold cutTexts
  rw [List.map_append, cut_append]

theorem cutTexts_eq_self {texts : List String} (h : ∀ text ∈ texts, '\x00' ∉ text.toList) :
    cutTexts texts = texts.map String.toList :=
  cut_eq_self (List.forall_mem_map.mpr h)

theorem cutTexts_rows (rows : List Row) :
    cutTexts (rows.map rowJson) = (rows.map rowJson).map String.toList :=
  cutTexts_eq_self (List.forall_mem_map.mpr (fun row _ => notMem_rowJson row))

theorem cutTexts_sources (h : ∀ source ∈ sources, PlainSource source) :
    cutTexts (sources.flatMap sourceTexts) = (sources.flatMap sourceTexts).map String.toList := by
  refine cutTexts_eq_self (fun text htext => ?_)
  obtain ⟨source, hsource, htext⟩ := List.mem_flatMap.mp htext
  exact (h source hsource).texts text htext

/-- The fields of evidence do not end like those of a source: where a source has its freshness, a
    diagnostic has its code and a row its JSON. -/
theorem cutTexts_ne_source (h : ∀ item ∈ evidence.diagnostics, PlainDiagnostic item)
    (before : List (List Char)) (source : SourceState) :
    cutTexts (evidenceTexts evidence) ≠ before ++ (sourceTexts source).map String.toList := by
  intro heq
  unfold evidenceTexts at heq
  rcases List.eq_nil_or_concat evidence.diagnostics with hnil | ⟨items, item, hitems⟩
  · -- without diagnostics every piece is the JSON of a row
    rw [hnil, List.flatMap_nil, List.append_nil, cutTexts_rows] at heq
    have hmem : (freshnessName source.freshness).toList ∈
        ((hashedRows evidence).map rowJson).map String.toList := by
      rw [heq]
      simp [sourceTexts]
    obtain ⟨_, hjson, hfresh⟩ := List.mem_map.mp hmem
    obtain ⟨row, -, rfl⟩ := List.mem_map.mp hjson
    have hhead := head_rowJson row
    rw [hfresh] at hhead
    revert hhead
    cases source.freshness <;> decide
  · -- otherwise the last two pieces are the code and the message of the last diagnostic
    rw [List.concat_eq_append] at hitems
    have hplain := h item (by rw [hitems]; simp)
    have htail : cutTexts [item.code, item.message] = [item.code.toList, item.message.toList] := by
      refine cutTexts_eq_self (fun text htext => ?_)
      rcases List.mem_cons.mp htext with rfl | htext
      · exact (plain_code hplain.code).2.1
      · obtain rfl := List.mem_singleton.mp htext
        exact hplain.message
    have hsplit : (hashedRows evidence).map rowJson ++ evidence.diagnostics.flatMap diagnosticTexts =
        ((hashedRows evidence).map rowJson ++ items.flatMap diagnosticTexts ++
          [item.sourceLocator]) ++ [item.code, item.message] := by
      rw [hitems, List.flatMap_append, List.flatMap_singleton]
      simp [diagnosticTexts]
    have hsource : before ++ (sourceTexts source).map String.toList =
        (before ++ [source.sourceId.toList, (sourceKindJson source.sourceKind).toList]) ++
          [(freshnessName source.freshness).toList, (source.cursor.getD "").toList] := by
      simp [sourceTexts]
    rw [hsplit, cutTexts_append, htail, hsource] at heq
    have hcode := (List.append_inj' heq rfl).2
    have hname := String.toList_injective (List.cons.inj hcode).1
    exact (plain_code hplain.code).2.2 _ hname

/-- GitHub is there, or it is not. -/
theorem cutTexts_sources_ne (h : ∀ item ∈ evidence.diagnostics, PlainDiagnostic item)
    {before : List (List Char)} {git documents github git' documents' : SourceState} :
    cutTexts (evidenceTexts evidence) ++
        ([git, documents].flatMap sourceTexts).map String.toList ≠
      before ++ ([github, git', documents'].flatMap sourceTexts).map String.toList := by
  intro heq
  have hsplit : [github, git', documents'].flatMap sourceTexts =
      sourceTexts github ++ [git', documents'].flatMap sourceTexts := rfl
  rw [hsplit, List.map_append, ← List.append_assoc] at heq
  exact cutTexts_ne_source h before github (List.append_inj' heq rfl).1

/-- **The pieces of a hashed text** determine the sources, and the pieces of the evidence. -/
theorem cutTexts_append_sources_iff (h : ∀ item ∈ evidence.diagnostics, PlainDiagnostic item)
    (h' : ∀ item ∈ evidence'.diagnostics, PlainDiagnostic item) (hs : SyncSources sources)
    (hs' : SyncSources sources') :
    cutTexts (evidenceTexts evidence ++ (sortSources sources).flatMap sourceTexts) =
        cutTexts (evidenceTexts evidence' ++ (sortSources sources').flatMap sourceTexts) ↔
      (sortSources sources).map SourceState.timeless =
          (sortSources sources').map SourceState.timeless ∧
        cutTexts (evidenceTexts evidence) = cutTexts (evidenceTexts evidence') := by
  have hplain : ∀ source ∈ sortSources sources, PlainSource source :=
    fun source hsource => hs.plain source (mem_sortBy.mp hsource)
  have hplain' : ∀ source ∈ sortSources sources', PlainSource source :=
    fun source hsource => hs'.plain source (mem_sortBy.mp hsource)
  rw [cutTexts_append, cutTexts_append, cutTexts_sources hplain, cutTexts_sources hplain']
  constructor
  · intro heq
    -- GitHub is in both lists or in neither
    have hlength : (sortSources sources).length = (sortSources sources').length := by
      obtain ⟨git, documents, hsorted⟩ := hs.sorted
      obtain ⟨git', documents', hsorted'⟩ := hs'.sorted
      rcases hsorted with hsorted | ⟨github, hsorted⟩ <;>
        rcases hsorted' with hsorted' | ⟨github', hsorted'⟩ <;> rw [hsorted, hsorted'] at heq ⊢
      · rfl
      · exact absurd heq (cutTexts_sources_ne h)
      · exact absurd heq.symm (cutTexts_sources_ne h')
      · rfl
    have htexts : ((sortSources sources).flatMap sourceTexts).length =
        ((sortSources sources').flatMap sourceTexts).length := by
      simp [List.length_flatMap, sourceTexts, hlength]
    -- so the fields of the sources are the last ones, and as many, on both sides
    obtain ⟨hevidence, hsources⟩ := List.append_inj' heq (by simpa using htexts)
    have hfields : (sortSources sources).flatMap sourceTexts =
        (sortSources sources').flatMap sourceTexts :=
      List.map_injective_iff.mpr (fun _ _ h => String.toList_injective h) hsources
    exact ⟨timeless_eq_of_flatMap hlength hplain hplain' hfields, hevidence⟩
  · rintro ⟨hsources, hevidence⟩
    rw [hevidence, ← @flatMap_sourceTexts_timeless (sortSources sources), hsources,
      flatMap_sourceTexts_timeless]

/-- Sorting keeps the diagnostics. -/
theorem mem_sorted_diagnostics {item : IngestDiagnostic} :
    item ∈ evidence.sorted.diagnostics ↔ item ∈ evidence.diagnostics :=
  mem_sortBy

theorem Prepared.plain_sorted (h : Prepared hash timestamp evidence) :
    ∀ item ∈ evidence.sorted.diagnostics, PlainDiagnostic item :=
  fun item hitem => h.plain item (mem_sorted_diagnostics.mp hitem)

/-- **One identifier**: the same sources, and evidence with the same pieces. -/
theorem snapshotId_eq_iff (hp : Prepared hash timestamp p.evidence)
    (hq : Prepared hash timestamp q.evidence) (hps : SyncSources p.sources)
    (hqs : SyncSources q.sources)
    (hhash : hash p.hashedText = hash q.hashedText → p.hashedText = q.hashedText) :
    p.snapshotId hash = q.snapshotId hash ↔ p.timelessSources = q.timelessSources ∧
      cutTexts (evidenceTexts p.evidence.sorted) = cutTexts (evidenceTexts q.evidence.sorted) := by
  have hid : p.snapshotId hash = q.snapshotId hash ↔ p.hashedText = q.hashedText := by
    constructor
    · intro h
      have hdigest : "snapshot:" ++ hash p.hashedText = "snapshot:" ++ hash q.hashedText := h
      have hlist := congrArg String.toList hdigest
      rw [String.toList_append, String.toList_append] at hlist
      exact hhash (String.toList_injective (List.append_cancel_left hlist))
    · intro h
      show "snapshot:" ++ hash p.hashedText = "snapshot:" ++ hash q.hashedText
      rw [h]
  have htext : p.hashedText = q.hashedText ↔ p.hashedText.toList = q.hashedText.toList :=
    ⟨congrArg String.toList, fun h => String.toList_injective h⟩
  rw [hid, htext]
  unfold Publication.hashedText
  rw [toList_snapshotMaterial, toList_snapshotMaterial, List.append_cancel_left_eq, terminated_eq_iff]
  exact cutTexts_append_sources_iff hp.plain_sorted hq.plain_sorted hps hqs

/-- **One state**: the same sources, and evidence with the same fields. -/
theorem sameState_iff (hp : Prepared hash timestamp p.evidence)
    (hq : Prepared hash timestamp q.evidence) :
    SameState p q ↔ p.timelessSources = q.timelessSources ∧
      evidenceTexts p.evidence.sorted = evidenceTexts q.evidence.sorted := by
  constructor
  · intro h
    have hrecords : values p.evidence.sorted.records = values q.evidence.sorted.records := h.records
    have hedges : values p.evidence.sorted.edges = values q.evidence.sorted.edges := h.edges
    refine ⟨h.sources, ?_⟩
    unfold evidenceTexts hashedRows
    rw [hrecords, hedges, h.conflicts, h.diagnostics]
  · rintro ⟨hsources, htexts⟩
    obtain ⟨hrows, hdiagnostics⟩ :=
      rows_append_diagnostics_inj hp.plain_sorted hq.plain_sorted htexts
    obtain ⟨hrecords, hedges, hconflicts⟩ := hashedRows_inj hrows
    exact ⟨hrecords, hedges, hconflicts, hdiagnostics, hsources⟩

/-- A snapshot is reused exactly under its identifier. -/
theorem unchanged_iff {db db' : Database} {report : SyncReport}
    (h : publishEvidence hash db q.evidence q.sources q.historyComplete q.githubRateLimit =
      .ok (report, db')) :
    report.unchanged = true ↔ currentSnapshotId db = some (q.snapshotId hash) := by
  unfold publishEvidence at h
  dsimp only at h
  split at h
  · next hcurrent =>
    obtain ⟨rfl, -⟩ := Prod.mk.inj (Except.ok.inj h)
    exact iff_of_true rfl hcurrent
  · next hcurrent =>
    obtain ⟨published, -, heq⟩ := map_eq_ok.mp h
    obtain ⟨rfl, -⟩ := Prod.mk.inj heq
    exact iff_of_false Bool.false_ne_true hcurrent

/-- What has the identifier of the current snapshot is not published any more. -/
theorem reuse_published (h : p.snapshotId hash = q.snapshotId hash) :
    ∃ db report, p.Publishes hash Database.empty db ∧
      publishEvidence hash db q.evidence q.sources q.historyComplete q.githubRateLimit =
        .ok (report, db) ∧ report.unchanged = true := by
  have hcurrent : currentSnapshotId (p.published hash Database.empty) =
      some (evidenceSnapshotId hash q.evidence.sorted (sortSources q.sources)) := congrArg some h
  have hreuse : ∃ report, publishEvidence hash (p.published hash Database.empty) q.evidence q.sources
      q.historyComplete q.githubRateLimit = .ok (report, p.published hash Database.empty) ∧
        report.unchanged = true := by
    unfold publishEvidence
    dsimp only
    rw [if_pos hcurrent]
    exact ⟨_, rfl, rfl⟩
  obtain ⟨report, hpublish, hunchanged⟩ := hreuse
  exact ⟨_, report, publishes_empty p, hpublish, hunchanged⟩

/-- What the identifier alone tells, the report tells as well. -/
theorem identified_of_state (h : p.snapshotId hash = q.snapshotId hash → SameState p q) :
    Identified hash p q where
  state := h
  unchanged db report db' hcurrent hpublish hunchanged := by
    have hsame := (unchanged_iff hpublish).mp hunchanged
    rw [hcurrent] at hsame
    exact h (Option.some.inj hsame)

/-- Without NULs in the locators of diagnostics, nothing is disguised. -/
theorem not_disguised_of_plain (hp : Prepared hash timestamp p.evidence)
    (hq : Prepared hash timestamp q.evidence)
    (hlocators : ∀ item ∈ p.evidence.diagnostics ++ q.evidence.diagnostics,
      '\x00' ∉ item.sourceLocator.toList) : ¬ Disguised p q := by
  -- no field has a NUL in it, so that there is nothing to cut
  have hcut : ∀ evidence : PreparedEvidence, Prepared hash timestamp evidence →
      (∀ item ∈ evidence.diagnostics, '\x00' ∉ item.sourceLocator.toList) →
        cutTexts (evidenceTexts evidence.sorted) =
          (evidenceTexts evidence.sorted).map String.toList := by
    intro evidence hprepared hplain
    refine cutTexts_eq_self (fun text htext => ?_)
    rcases List.mem_append.mp htext with hrow | hdiagnostic
    · obtain ⟨row, -, rfl⟩ := List.mem_map.mp hrow
      exact notMem_rowJson row
    · obtain ⟨item, hitem, hfield⟩ := List.mem_flatMap.mp hdiagnostic
      have hitem' := mem_sorted_diagnostics.mp hitem
      have hknown := hprepared.plain item hitem'
      simp only [diagnosticTexts, List.mem_cons, List.not_mem_nil, or_false] at hfield
      rcases hfield with rfl | rfl | rfl
      · exact hplain item hitem'
      · exact (plain_code hknown.code).2.1
      · exact hknown.message
  intro h
  have hpieces := h.pieces
  rw [hcut _ hp (fun item hitem => hlocators item (List.mem_append_left _ hitem)),
    hcut _ hq (fun item hitem => hlocators item (List.mem_append_right _ hitem))] at hpieces
  exact h.texts (List.map_injective_iff.mpr (fun _ _ h => String.toList_injective h) hpieces)

end Identifier

/-! ### A disguise -/

/-- The metadata of a decision that conflicts with an absent one, under some rules. -/
def conflictBlock (rules : List String) : String :=
  "rationale:\n  id: ADR-1\n  status: accepted\n  conflicts:\n" ++
    String.join (rules.map fun rule => "    - with: ADR-2\n      rule_id: \"" ++ rule ++ "\"\n")

def conflictMetadata (rules : List String) : DecodedRationale :=
  .metadata ⟨"ADR-1", none, none, none, "accepted", [], [], [], rules.map (⟨"ADR-2", ·⟩)⟩

/-- A rule that ends like one diagnostic and starts like another, as it is written in YAML. -/
def joinedRuleText : String :=
  "x\\0unresolved_conflict\\0explicit conflict target is absent from local sources\\0y"

def joinedRule : String :=
  "x\x00unresolved_conflict\x00explicit conflict target is absent from local sources\x00y"

/-- What two such blocks hold. -/
def conflictParsers : Parsers where
  rationale _ text :=
    if text = conflictBlock [joinedRuleText] then conflictMetadata [joinedRule]
    else if text = conflictBlock ["x", "y"] then conflictMetadata ["x", "y"]
    else .invalid
  verification _ _ := none
  markdown _ := []

def conflictEvidence (rules : List String) : PreparedEvidence :=
  prepareEvidence id (fun _ => none) []
    (ingest id conflictParsers .default [⟨"adr-1.md", "---\n" ++ conflictBlock rules ++ "---\n"⟩]) []

def conflictSources : List SourceState :=
  localSources ⟨conflictEvidence [], true, "00", "inputs:00"⟩ "now"

/-- A publication of one such document, with the same sources every time. -/
def conflictPublication (rules : List String) : Publication :=
  ⟨conflictEvidence rules, conflictSources, true, none⟩

/-- The record of the decision. -/
def conflictNode : EvidenceNode :=
  ⟨"ADR-1", .decision, .current, none, none, ⟨.document, "adr-1.md#rationale", none, none⟩⟩

/-- The evidence is the decision, and a diagnostic for each of its conflicts. -/
def Unresolved (rules : List String) (evidence : PreparedEvidence) : Prop :=
  hashedRows evidence = [.node conflictNode] ∧
    evidence.diagnostics = rules.map fun rule => unresolvedConflict ⟨"ADR-1", "ADR-2", rule⟩

instance (rules : List String) (evidence : PreparedEvidence) :
    Decidable (Unresolved rules evidence) :=
  inferInstanceAs (Decidable (_ ∧ _))

section Samples

set_option maxRecDepth 2000

end Samples

end Rationale.Engine
