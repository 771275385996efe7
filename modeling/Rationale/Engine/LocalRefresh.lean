import Rationale.Engine.DocumentScan
import Rationale.Engine.Identify
import Rationale.Engine.Refreshes
import Rationale.Library.Delimited

namespace Rationale.Engine

open Std Rationale.Library Rationale.Docs Rationale.Git Rationale.Store

/-!
# What a local synchronization notices

`local_inputs_id` of `crates/rationale-engine/src/lib.rs` names the commits and documents that the
evidence was made from, and the name is part of the snapshot's.

* `localInputsText_eq_iff` — the hashed text determines the commit identifiers and the documents;
* `SameInputs` — the inputs of two calls, up to the time and the order of the diagnostics;
* `syncLocal_unchanged_iff` — the second of two local synchronizations leaves the snapshot as it is
  exactly when nothing has changed.
-/

/-! ### The hashed text -/

/-- The text that `local_inputs_id` hashes. -/
def localInputsText (commits : List CommitEvidence) (documents : List DocumentInput) : String :=
  "rationale-local-inputs-v1\x00" ++ String.join (commits.map fun commit => commit.id ++ "\x00")
    ++ String.join (documents.map fun document =>
      document.path ++ "\x00" ++ document.content ++ "\x00")

def documentFields (document : DocumentInput) : List (List Char) :=
  [document.path.toList, document.content.toList]

/-- Its fields. -/
def localInputsFields (commits : List CommitEvidence) (documents : List DocumentInput) :
    List (List Char) :=
  commits.map (·.id.toList) ++ documents.flatMap documentFields

/-- Inputs whose fields can be told apart: identifiers are hexadecimal, documents are found by their
    extension, and no text has a NUL. -/
structure PlainInputs (inputs : LocalInputs) : Prop where
  commits : ∀ commit ∈ inputs.history.commits, isHex commit.id
  documents : ∀ document ∈ inputs.documents, isDocumentPath document.path = true
  texts : ∀ document ∈ inputs.documents, ∀ field ∈ documentFields document, '\x00' ∉ field

section Text

variable {commits commits' : List CommitEvidence} {documents documents' : List DocumentInput}
  {inputs inputs' : LocalInputs}

theorem localInputsId_eq {hash : String → String} : localInputsId hash commits documents =
    "inputs:" ++ hash (localInputsText commits documents) := rfl

theorem toList_localInputsText : (localInputsText commits documents).toList =
    "rationale-local-inputs-v1\x00".toList ++
      terminated '\x00' (localInputsFields commits documents) := by
  have hdocuments : (String.join (documents.map fun document =>
      document.path ++ "\x00" ++ document.content ++ "\x00")).toList =
        terminated '\x00' (documents.flatMap documentFields) := by
    rw [String.toList_join, terminated, List.flatMap_map, List.flatMap_assoc]
    refine List.flatMap_congr fun document _ => ?_
    simp [documentFields]
  unfold localInputsText localInputsFields
  rw [terminated_append, String.toList_append, String.toList_append, hdocuments, toList_join_field,
    List.append_assoc, List.map_map]
  rfl

/-- A path with an extension has a dot. -/
theorem dot_mem_of_extension {path : String} {ext : List Char} (h : extension path = some ext) :
    '.' ∈ path.toList := by
  unfold extension at h
  split at h
  · exact nomatch h
  · next name hname =>
    split at h
    · exact nomatch h
    · by_contra hdot
      have hmem : name ∈ path.toList.splitOn '/' :=
        List.mem_of_mem_filter (List.mem_of_getLast? hname)
      have hnone : '.' ∉ name := fun hin => hdot ((infix_of_mem_splitOn hmem).subset hin)
      rw [List.splitOn_eq_singleton hnone] at h
      exact nomatch h

theorem dot_mem_of_isDocumentPath {path : String} (h : isDocumentPath path = true) :
    '.' ∈ path.toList := by
  cases hext : extension path with
  | some ext => exact dot_mem_of_extension hext
  | none =>
    unfold isDocumentPath at h
    rw [hext] at h
    exact absurd h Bool.false_ne_true

theorem dot_notMem_of_isHex {text : String} (h : isHex text) : '.' ∉ text.toList := by
  intro hmem
  exact absurd (List.all_eq_true.mp h _ hmem) (by decide)

/-- Two lists of documents with the same fields. -/
theorem documents_eq_of_fields
    (h : documents.flatMap documentFields = documents'.flatMap documentFields) :
    documents = documents' := by
  induction documents generalizing documents' with
  | nil =>
    cases documents' with
    | nil => rfl
    | cons document' documents' => exact nomatch h
  | cons document documents ih =>
    cases documents' with
    | nil => exact nomatch h
    | cons document' documents' =>
      obtain ⟨hpath, hrest⟩ := List.cons_eq_cons.mp h
      obtain ⟨hcontent, hrest⟩ := List.cons_eq_cons.mp hrest
      have hdocument : document = document' := by
        cases document
        cases document'
        rw [DocumentInput.mk.injEq]
        exact ⟨String.toList_injective hpath, String.toList_injective hcontent⟩
      rw [hdocument, ih hrest]

theorem PlainInputs.fields (h : PlainInputs inputs) :
    ∀ field ∈ localInputsFields inputs.history.commits inputs.documents, '\x00' ∉ field := by
  intro field hfield
  rcases List.mem_append.mp hfield with hcommit | hdocument
  · obtain ⟨commit, hmem, rfl⟩ := List.mem_map.mp hcommit
    exact notMem_of_isHex (h.commits commit hmem)
  · obtain ⟨document, hmem, hin⟩ := List.mem_flatMap.mp hdocument
    exact h.texts document hmem field hin

theorem PlainInputs.ids (h : PlainInputs inputs) :
    ∀ field ∈ inputs.history.commits.map (·.id.toList), '.' ∉ field := by
  intro field hfield
  obtain ⟨commit, hcommit, rfl⟩ := List.mem_map.mp hfield
  exact dot_notMem_of_isHex (h.commits commit hcommit)

theorem PlainInputs.head (h : PlainInputs inputs) :
    ∀ field ∈ (inputs.documents.flatMap documentFields).head?, ¬ '.' ∉ field := by
  intro field hfield
  cases hdocuments : inputs.documents with
  | nil =>
    rw [hdocuments] at hfield
    exact nomatch hfield
  | cons document documents =>
    rw [hdocuments] at hfield
    obtain rfl : document.path.toList = field := Option.some.inj hfield
    refine not_not_intro (dot_mem_of_isDocumentPath (h.documents document ?_))
    rw [hdocuments]
    exact List.mem_cons_self

/-- **What the name stands for**: the identifiers of the commits and the documents, in their order. -/
theorem localInputsText_eq_iff (h : PlainInputs inputs) (h' : PlainInputs inputs') :
    localInputsText inputs.history.commits inputs.documents =
        localInputsText inputs'.history.commits inputs'.documents ↔
      inputs.history.commits.map (·.id) = inputs'.history.commits.map (·.id) ∧
        inputs.documents = inputs'.documents := by
  constructor
  · intro htext
    have hlist := congrArg String.toList htext
    rw [toList_localInputsText, toList_localInputsText] at hlist
    have hfields := terminated_eq_iff.mp (List.append_cancel_left hlist)
    rw [cut_eq_self h.fields, cut_eq_self h'.fields] at hfields
    -- an identifier has no dot, and the path of a document has one
    obtain ⟨hids, hdocuments⟩ := append_eq_append_of_head h.ids h'.ids h.head h'.head hfields
    have hinjective : Function.Injective String.toList := fun _ _ heq => String.toList_injective heq
    refine ⟨List.map_injective_iff.mpr hinjective ?_, documents_eq_of_fields hdocuments⟩
    rw [List.map_map, List.map_map]
    exact hids
  · rintro ⟨hids, hdocuments⟩
    have hmap : ∀ commits : List CommitEvidence, commits.map (fun commit => commit.id ++ "\x00") =
        (commits.map (·.id)).map (· ++ "\x00") := by
      intro commits
      rw [List.map_map]
      rfl
    unfold localInputsText
    rw [hmap, hmap, hids, hdocuments]

end Text

/-! ### The second of two calls -/

/-- The same commits and documents, up to the time and the order of the diagnostics. -/
structure SameInputs (inputs inputs' : LocalInputs) : Prop where
  commits : inputs.history.commits = inputs'.history.commits
  complete : inputs.history.complete = inputs'.history.complete
  documents : inputs.documents = inputs'.documents
  diagnostics : inputs.diagnostics.Perm inputs'.diagnostics

/-- What is assumed of the hash and of Git: neither of the two names is that of another text, and a
    commit's identifier determines it. -/
structure Distinguishes (hash : String → String) (timestamp : Int → Option String) (parsers : Parsers)
    (inputs inputs' : LocalInputs) : Prop where
  snapshots : CollisionFree hash [localPublication hash timestamp parsers inputs,
    localPublication hash timestamp parsers inputs']
  texts : hash (localInputsText inputs.history.commits inputs.documents) =
      hash (localInputsText inputs'.history.commits inputs'.documents) →
    localInputsText inputs.history.commits inputs.documents =
      localInputsText inputs'.history.commits inputs'.documents
  commits : ∀ commit ∈ inputs.history.commits, ∀ commit' ∈ inputs'.history.commits,
    commit.id = commit'.id → commit = commit'

/-- What the ingestor and the linker report about these commits and documents. -/
def laterDiagnostics (hash : String → String) (timestamp : Int → Option String) (parsers : Parsers)
    (commits : List CommitEvidence) (documents : List DocumentInput) : List IngestDiagnostic :=
  let ingested := ingest hash parsers IngestConfig.default documents
  ingested.diagnostics ++ ((unresolvedEdges hash timestamp commits ingested).map unresolvedReference
    ++ (unresolvedConflicts timestamp commits ingested).map unresolvedConflict)

section Calls

variable {hash : String → String} {timestamp : Int → Option String} {parsers : Parsers}
  {inputs inputs' : LocalInputs} {db db' : Database} {report : SyncReport}

/-- Commits are determined by their identifiers. -/
theorem commits_eq_of_ids {commits commits' : List CommitEvidence}
    (hcommits : ∀ commit ∈ commits, ∀ commit' ∈ commits', commit.id = commit'.id → commit = commit')
    (h : commits.map (·.id) = commits'.map (·.id)) : commits = commits' := by
  induction commits generalizing commits' with
  | nil => exact (List.map_eq_nil_iff.mp h.symm).symm
  | cons commit commits ih =>
    cases commits' with
    | nil => exact nomatch h
    | cons commit' commits' =>
      obtain ⟨hid, hrest⟩ := List.cons_eq_cons.mp h
      have hequal := ih (fun a ha b hb =>
        hcommits a (List.mem_cons_of_mem _ ha) b (List.mem_cons_of_mem _ hb)) hrest
      rw [hcommits commit List.mem_cons_self commit' List.mem_cons_self hid, hequal]

/-- The diagnostics of a local synchronization after those of the scan. -/
theorem diagnostics_localPublication :
    (localPublication hash timestamp parsers inputs).evidence.diagnostics = inputs.diagnostics ++
      laterDiagnostics hash timestamp parsers inputs.history.commits inputs.documents := by
  show ((inputs.diagnostics ++ _) ++ _) ++ _ = _
  rw [List.append_assoc, List.append_assoc]
  rfl

/-- The local sources of one state. -/
theorem localSources_eq_of_perm {localSync localSync' : LocalSync} {now now' : String}
    (h : ((localSources localSync now).map SourceState.timeless).Perm
      ((localSources localSync' now').map SourceState.timeless)) :
    localSync.historyComplete = localSync'.historyComplete ∧
      localSync.documentsCursor = localSync'.documentsCursor := by
  let git (localSync : LocalSync) : SourceState :=
    ⟨"local-git", .git, if localSync.historyComplete then .fresh else .stale, "", some localSync.head⟩
  let documents (localSync : LocalSync) : SourceState :=
    ⟨"repository-documents", .document, .fresh, "", some localSync.documentsCursor⟩
  have hmem : ∀ source, source ∈ [git localSync, documents localSync] ↔
      source ∈ [git localSync', documents localSync'] := fun _ => h.mem_iff
  constructor
  · rcases List.mem_pair.mp ((hmem _).mp List.mem_cons_self) with heq | heq
    · have hinjective : ∀ complete complete' : Bool, (if complete then Freshness.fresh else .stale) =
          (if complete' then .fresh else .stale) → complete = complete' := by decide
      exact hinjective _ _ (congrArg SourceState.freshness heq)
    · exact nomatch congrArg SourceState.sourceKind heq
  · rcases List.mem_pair.mp ((hmem _).mp (List.mem_cons_of_mem _ List.mem_cons_self)) with heq | heq
    · exact nomatch congrArg SourceState.sourceKind heq
    · exact Option.some.inj (congrArg SourceState.cursor heq)

/-- Unchanged inputs are published in one state. -/
theorem SameInputs.sameState (h : SameInputs inputs inputs') :
    SameState (localPublication hash timestamp parsers inputs')
      (localPublication hash timestamp parsers inputs) := by
  have hdiagnostics : (localPublication hash timestamp parsers inputs').evidence.sorted.diagnostics =
      (localPublication hash timestamp parsers inputs).evidence.sorted.diagnostics := by
    show sortBy compareDiagnostics
      (localPublication hash timestamp parsers inputs').evidence.diagnostics = sortBy compareDiagnostics
        (localPublication hash timestamp parsers inputs).evidence.diagnostics
    refine sortBy_eq_of_perm ?_ (fun _ _ _ _ heq => LawfulEqCmp.eq_of_compare heq)
    rw [diagnostics_localPublication, diagnostics_localPublication, h.commits, h.documents]
    exact h.diagnostics.symm.append_right _
  obtain ⟨⟨commits, complete⟩, documents, diagnostics, now⟩ := inputs
  obtain ⟨⟨commits', complete'⟩, documents', diagnostics', now'⟩ := inputs'
  obtain ⟨hcommits, hcomplete, hdocuments, -⟩ := h
  obtain rfl : commits = commits' := hcommits
  obtain rfl : complete = complete' := hcomplete
  obtain rfl : documents = documents' := hdocuments
  refine ⟨rfl, rfl, rfl, hdiagnostics, ?_⟩
  rw [timelessSources_eq, timelessSources_eq]
  rfl

/-- **What was noticed.** Local inputs that are published in one state are the same. -/
theorem sameInputs_of_sameState (hplain : PlainInputs inputs) (hplain' : PlainInputs inputs')
    (hdistinguishes : Distinguishes hash timestamp parsers inputs inputs')
    (h : SameState (localPublication hash timestamp parsers inputs)
      (localPublication hash timestamp parsers inputs')) : SameInputs inputs inputs' := by
  have hsources := h.sources
  rw [timelessSources_eq, timelessSources_eq] at hsources
  have hperm : ((localPublication hash timestamp parsers inputs).sources.map SourceState.timeless).Perm
      ((localPublication hash timestamp parsers inputs').sources.map SourceState.timeless) :=
    perm_of_sortBy_eq hsources
  obtain ⟨hcomplete, hcursor⟩ := localSources_eq_of_perm hperm
  -- the cursor of the documents is the name of the inputs
  have hname : localInputsId hash inputs.history.commits inputs.documents =
      localInputsId hash inputs'.history.commits inputs'.documents := hcursor
  rw [localInputsId_eq, localInputsId_eq] at hname
  have hhash := (String.append_right_inj "inputs:").mp hname
  obtain ⟨hids, hdocuments⟩ := (localInputsText_eq_iff hplain hplain').mp (hdistinguishes.texts hhash)
  have hcommits := commits_eq_of_ids hdistinguishes.commits hids
  refine ⟨hcommits, hcomplete, hdocuments, ?_⟩
  have hdiagnostics : sortBy compareDiagnostics
      (localPublication hash timestamp parsers inputs).evidence.diagnostics = sortBy compareDiagnostics
        (localPublication hash timestamp parsers inputs').evidence.diagnostics := h.diagnostics
  rw [diagnostics_localPublication, diagnostics_localPublication, hcommits, hdocuments] at hdiagnostics
  exact (List.perm_append_right_iff _).mp (perm_of_sortBy_eq hdiagnostics)

/-- **A local synchronization notices every change.**  After one that published, the next one leaves
    the snapshot as it is exactly when the commits, the completeness of the history, the documents and
    the diagnostics of the scan are those of the one before. -/
theorem syncLocal_unchanged_iff
    (hfirst : (SyncCall.offline inputs).run hash timestamp parsers db = .ok (report, db'))
    (hnew : report.unchanged = false) (hplain : PlainInputs inputs) (hplain' : PlainInputs inputs')
    (hdistinguishes : Distinguishes hash timestamp parsers inputs inputs') :
    (∃ report', (SyncCall.offline inputs').run hash timestamp parsers db' = .ok (report', db') ∧
      report'.unchanged = true) ↔ SameInputs inputs inputs' := by
  obtain ⟨-, hid, -, -⟩ :=
    run_new (p := localPublication hash timestamp parsers inputs) hfirst hnew rfl
  constructor
  · rintro ⟨report', hsecond, hunchanged⟩
    by_cases hcurrent : currentSnapshotId db' =
        some ((localPublication hash timestamp parsers inputs').snapshotId hash)
    · have heq := Option.some.inj (hcurrent.symm.trans hid)
      exact sameInputs_of_sameState hplain hplain' hdistinguishes
        (hdistinguishes.snapshots _ (by simp) _ (by simp) heq.symm)
    · have hchanged := unchanged_eq_false hsecond hcurrent
      exact absurd (hchanged.symm.trans hunchanged) (by decide)
  · intro hsame
    have hstate : SameState (localPublication hash timestamp parsers inputs')
        (localPublication hash timestamp parsers inputs) := hsame.sameState
    obtain ⟨report', hrun, hunchanged, -⟩ :=
      publishEvidence_current (p := localPublication hash timestamp parsers inputs')
        (hid.trans (congrArg some hstate.snapshotId_eq.symm))
    exact ⟨report', hrun, hunchanged⟩

end Calls

/-! ### A document that is rewritten -/

/-- One commit, and a document without metadata. -/
def notesInputs (content : String) : LocalInputs :=
  ⟨⟨[firstCommit], true⟩, [⟨"notes.md", content⟩], [], "now"⟩

theorem plainInputs_notes {content : String} (h : '\x00' ∉ content.toList) :
    PlainInputs (notesInputs content) where
  commits := by
    intro commit hcommit
    obtain rfl := List.mem_singleton.mp hcommit
    decide
  documents := by
    intro document hdocument
    obtain rfl := List.mem_singleton.mp hdocument
    show isDocumentPath "notes.md" = true
    decide
  texts := by
    intro document hdocument field hfield
    obtain rfl := List.mem_singleton.mp hdocument
    rcases List.mem_pair.mp hfield with rfl | rfl
    · show '\x00' ∉ "notes.md".toList
      decide
    · exact h

set_option maxRecDepth 8000 in
/-- A text that leaves no evidence is noticed as well. -/
theorem syncLocal_unchanged_notes : ∃ report db,
    (SyncCall.offline (notesInputs "Old")).run id (fun _ => none) noParsers Database.empty =
        .ok (report, db) ∧
      ¬ ∃ report', (SyncCall.offline (notesInputs "New")).run id (fun _ => none) noParsers db =
        .ok (report', db) ∧ report'.unchanged = true := by
  obtain ⟨report, db, hfirst⟩ := (exists_run_eq_ok_iff Reachable.empty.valid).mpr
    ⟨priorLoads_none (.offline (notesInputs "Old")), _, publishes_empty _⟩
  have hdistinguishes : Distinguishes id (fun _ => none) noParsers (notesInputs "Old")
      (notesInputs "New") := by
    refine ⟨NewIds.collisionFree (List.pairwise_pair.mpr ?_), id, by decide⟩
    decide
  refine ⟨report, db, hfirst, fun hunchanged => ?_⟩
  have hsame := (syncLocal_unchanged_iff hfirst (unchanged_eq_false hfirst nofun)
    (plainInputs_notes (by decide)) (plainInputs_notes (by decide)) hdistinguishes).mp hunchanged
  exact absurd hsame.documents (by decide)

end Rationale.Engine
