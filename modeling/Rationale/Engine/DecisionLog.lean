import Mathlib.Data.String.Basic
import Rationale.Docs.Containment
import Rationale.Engine.Plan

namespace Rationale.Engine

open Std Rationale.Library Rationale.Docs Rationale.Git Rationale.Store

/-!
# Repositories whose commits follow decisions

A family of repositories of any number of commits, each of which names every one of up to a hundred
decision documents.

* `numberedCommit`, `decisionId` — identifiers by number;
* `parseInput_decisionFile` — the documents parse;
* `mem_records_decisionLog`, `mem_edges_decisionLog` — what is published of such a repository;
* `length_records_decisionLog`, `length_edges_decisionLog` — how much that is.
-/

/-! ### Identifiers -/

/-- The digits of a number below 4,096. -/
def hexDigits (n : Nat) : List Char :=
  [Nat.digitChar (n / 256), Nat.digitChar (n / 16 % 16), Nat.digitChar (n % 16)]

/-- The identifier of a commit: forty digits. -/
def numberedCommit (n : Nat) : String := String.ofList (hexDigits n ++ List.replicate 37 '0')

def decisionChars (n : Nat) : List Char :=
  ['A', 'D', 'R', '-', Nat.digitChar (n / 10), Nat.digitChar (n % 10)]

/-- The identifier of a decision: `ADR-00` to `ADR-99`. -/
def decisionId (n : Nat) : String := String.ofList (decisionChars n)

theorem digitChar_inj : ∀ a < 16, ∀ b < 16, Nat.digitChar a = Nat.digitChar b → a = b := by
  decide

theorem numberedCommit_inj {m n : Nat} (hm : m < 4096) (hn : n < 4096)
    (h : numberedCommit m = numberedCommit n) : m = n := by
  have hdigits := List.append_cancel_right (String.ofList_injective h)
  unfold hexDigits at hdigits
  simp only [List.cons.injEq, and_true] at hdigits
  obtain ⟨hfirst, hsecond, hthird⟩ := hdigits
  have hfirst := digitChar_inj (m / 256) (by omega) (n / 256) (by omega) hfirst
  have hsecond := digitChar_inj (m / 16 % 16) (by omega) (n / 16 % 16) (by omega) hsecond
  have hthird := digitChar_inj (m % 16) (by omega) (n % 16) (by omega) hthird
  omega

theorem decisionId_inj {m n : Nat} (hm : m < 100) (hn : n < 100)
    (h : decisionId m = decisionId n) : m = n := by
  have hdigits := String.ofList_injective h
  unfold decisionChars at hdigits
  simp only [List.cons.injEq, true_and, and_true] at hdigits
  have htens := digitChar_inj (m / 10) (by omega) (n / 10) (by omega) hdigits.1
  have hones := digitChar_inj (m % 10) (by omega) (n % 10) (by omega) hdigits.2
  omega

/-- Commits and decisions have identifiers of different lengths. -/
theorem numberedCommit_ne_decisionId (m n : Nat) : numberedCommit m ≠ decisionId n := by
  intro h
  have hlength := congrArg List.length (String.ofList_injective h)
  simp [hexDigits, decisionChars] at hlength

/-! ### Documents -/

/-- The metadata of a decision. -/
def decisionTemplate (name : List Char) : List Char :=
  "rationale:\n  id: ".toList ++ name ++ "\n  status: accepted\n".toList

def decisionPath (n : Nat) : List Char := decisionChars n ++ ".md".toList

def decisionContent (n : Nat) : List Char :=
  "---\n".toList ++ decisionTemplate (decisionChars n) ++ "---\n".toList

def decisionFile (n : Nat) : DocumentInput :=
  ⟨String.ofList (decisionPath n), String.ofList (decisionContent n)⟩

/-- The metadata that such texts hold. -/
def templateParsers : Parsers where
  rationale _ text :=
    let name := (text.toList.drop 17).takeWhile (· ≠ '\n')
    if text.toList = decisionTemplate name then
      .metadata ⟨String.ofList name, none, none, none, "accepted", [], [], [], []⟩
    else .absent
  verification _ _ := none
  markdown _ := []

/-- The record of a decision. -/
def decisionNode (n : Nat) : EvidenceNode :=
  ⟨decisionId n, .decision, .current, none, none,
    ⟨.document, String.ofList (decisionPath n) ++ "#rationale", none, none⟩⟩

section Parsing

set_option maxRecDepth 2000

variable {n : Nat}

theorem templateParsers_rationale (kind : FrontMatterKind) (h : n < 100) :
    templateParsers.rationale kind (String.ofList (decisionTemplate (decisionChars n))) =
      .metadata ⟨decisionId n, none, none, none, "accepted", [], [], [], []⟩ := by
  have hname : ∀ n < 100, ((decisionTemplate (decisionChars n)).drop 17).takeWhile (· ≠ '\n') =
      decisionChars n := by
    decide
  unfold templateParsers
  simp only [String.toList_ofList, hname n h, if_true]
  rfl

theorem frontMatter_decisionContent (h : n < 100) : frontMatter (decisionContent n) =
    .ok (some (.yaml, decisionTemplate (decisionChars n), [])) := by
  have hall : ∀ n ∈ List.range 100, frontMatter (decisionContent n) =
      .ok (some (.yaml, decisionTemplate (decisionChars n), [])) := by
    decide
  exact hall n (List.mem_range.mpr h)

theorem validateStructuralNesting_decision (h : n < 100) :
    validateStructuralNesting (decisionTemplate (decisionChars n)) = .ok () := by
  have hall : ∀ n < 100, (indentationBounded [] (Text.lines (decisionTemplate (decisionChars n))) &&
      bracketsBounded 0 none false (decisionTemplate (decisionChars n))) = true := by
    decide
  unfold validateStructuralNesting
  rw [hall n h, if_pos rfl]

theorem validateId_decisionId (h : n < 100) : validateId (decisionId n) = .ok () := by
  have hall : ∀ n < 100, validateId (decisionId n) = .ok () := by
    decide
  exact hall n h

theorem kind_decisionId (h : n < 100) : IdPatterns.default.kind (decisionId n) = some .decision := by
  have hall : ∀ n < 100, IdPatterns.default.kind (decisionId n) = some .decision := by
    decide
  exact hall n h

/-- The metadata of a decision gives its record, and no relationship. -/
theorem normalizeMarkdown_decision (h : n < 100) (hash : String → String) (path body : String) :
    normalizeMarkdown hash templateParsers path body IdPatterns.default
        ⟨decisionId n, none, none, none, "accepted", [], [], [], []⟩ =
      .ok ⟨⟨decisionId n, .decision, .current, none, none,
        ⟨.document, path ++ "#rationale", none, none⟩⟩, [], []⟩ := by
  have hmarkdown : markdownIdentifiers templateParsers body IdPatterns.default = [] := by
    unfold markdownIdentifiers
    rw [sortUniq_eq_nil]
    rfl
  unfold normalizeMarkdown markdownKind
  dsimp only
  rw [validateId_decisionId h, kind_decisionId h, hmarkdown, List.append_nil,
    sortUniq_eq_nil.mpr rfl]
  rfl

theorem normalizePath_decisionPath (h : n < 100) :
    Docs.normalizePath (String.ofList (decisionPath n)) = .ok (String.ofList (decisionPath n)) := by
  have hparts : ∀ n < 100, normalizeComponents ((decisionPath n).splitOn '/') =
      .ok [decisionPath n] := by
    decide
  unfold Docs.normalizePath
  rw [String.toList_ofList, hparts n h, if_neg]
  · simp
  · simp [decisionPath, decisionChars]

theorem parseDocument_decision (h : n < 100) (hash : String → String) :
    parseDocument hash templateParsers IngestConfig.default (String.ofList (decisionPath n))
      (String.ofList (decisionContent n)) = .ok (some ⟨decisionNode n, [], []⟩) := by
  -- the extension decides the parser: not a manifest, and Markdown
  have hmanifest : isVerificationManifest (String.ofList (decisionPath n)) = false := by
    have hall : ∀ n < 100, (".rationale.toml".toList.isSuffixOf
        (Text.toAsciiLowercase (decisionPath n)) || ".rationale.yaml".toList.isSuffixOf
        (Text.toAsciiLowercase (decisionPath n)) || ".rationale.yml".toList.isSuffixOf
        (Text.toAsciiLowercase (decisionPath n))) = false := by
      decide
    unfold isVerificationManifest
    rw [String.toList_ofList]
    exact hall n h
  have hextension : hasExtension (String.ofList (decisionPath n)) "md" = true := by
    unfold hasExtension extension
    rw [String.toList_ofList]
    revert n
    decide
  unfold parseDocument
  rw [hmanifest, hextension, if_neg Bool.false_ne_true, if_pos rfl]
  unfold parseMarkdown
  rw [String.toList_ofList, frontMatter_decisionContent h]
  show (validateStructuralNesting (decisionTemplate (decisionChars n)) >>= _) = _
  -- the front matter passes each stage with the value computed above
  rw [validateStructuralNesting_decision h]
  show (match templateParsers.rationale .yaml
    (String.ofList (decisionTemplate (decisionChars n))) with
      | _ => _) = _
  rw [templateParsers_rationale .yaml h]
  dsimp only
  show (normalizeMarkdown hash templateParsers _ _ IdPatterns.default _ >>= _) = _
  rw [normalizeMarkdown_decision h]
  rfl

/-- **The documents parse**, each to its decision. -/
theorem parseInput_decisionFile (h : n < 100) (hash : String → String) :
    parseInput hash templateParsers IngestConfig.default (decisionFile n) =
      .ok (some (String.ofList (decisionPath n), ⟨decisionNode n, [], []⟩)) := by
  have hsize : (String.ofList (decisionContent n)).utf8ByteSize ≤ 1024 * 1024 := by
    have hall : ∀ n < 100, String.utf8Len (decisionContent n) ≤ 1024 * 1024 := by
      decide
    rw [String.utf8ByteSize_ofList]
    exact hall n h
  unfold parseInput decisionFile
  dsimp only
  rw [if_neg (show ¬ (String.ofList (decisionContent n)).utf8ByteSize >
    IngestConfig.default.maxFileBytes from hsize.not_gt), normalizePath_decisionPath h]
  dsimp only
  rw [parseDocument_decision h]

end Parsing

/-! ### Repositories -/

/-- A commit that names the first decisions. -/
def followingCommit (decisions n : Nat) : CommitEvidence :=
  ⟨numberedCommit n, "Follow the decisions", 0,
    (List.range decisions).map fun decision => ⟨.decision, decisionId decision⟩⟩

def decisionFiles (decisions : Nat) : List DocumentInput := (List.range decisions).map decisionFile

/-- A repository of some commits, each of which names every decision. -/
def decisionLog (commits decisions : Nat) : LocalInputs where
  history := ⟨(List.range commits).map (followingCommit decisions), true⟩
  documents := decisionFiles decisions
  diagnostics := []
  now := "1970-01-01T00:00:00Z"

/-- The time of every commit. -/
def epoch (_ : Int) : Option String := some "1970-01-01T00:00:00Z"

/-- What a call publishes of such a repository. -/
def logPublication (commits decisions : Nat) : Publication :=
  localPublication id epoch templateParsers (decisionLog commits decisions)

/-- The reference of a commit to a decision. -/
def followsEdge (commit decision : Nat) : EvidenceEdge :=
  evidenceEdge id .documents (numberedCommit commit) (decisionId decision)
    ⟨.git, "commit:" ++ numberedCommit commit ++ "#message", some (numberedCommit commit), none⟩

section Batches

variable {decisions n : Nat} {hash : String → String}

theorem nodup_decisionFiles (h : decisions ≤ 100) :
    ((decisionFiles decisions).map DocumentInput.path).Nodup := by
  unfold decisionFiles
  rw [List.map_map]
  refine List.Nodup.map_on (fun a ha b hb heq => ?_) List.nodup_range
  have hpath : decisionPath a = decisionPath b := String.ofList_injective heq
  have hchars := List.append_cancel_right hpath
  exact decisionId_inj (by have := List.mem_range.mp ha; omega)
    (by have := List.mem_range.mp hb; omega) (congrArg String.ofList hchars)

/-- What is accepted of the decision files are decisions. -/
theorem exists_of_accepts (h : decisions ≤ 100) {input : DocumentInput} {parsed : ParsedInput}
    (hinput : input ∈ decisionFiles decisions)
    (haccepts : Accepts hash templateParsers IngestConfig.default (decisionFiles decisions) input
      parsed) : ∃ n < decisions, parsed = ⟨decisionNode n, [], []⟩ := by
  obtain ⟨n, hn, rfl⟩ := List.mem_map.mp hinput
  have hn := List.mem_range.mp hn
  obtain ⟨path, hparse⟩ := (judge_accepted_iff.mp haccepts).2.1
  rw [parseInput_decisionFile (by omega)] at hparse
  exact ⟨n, hn, (Prod.mk.inj (Option.some.inj (Except.ok.inj hparse))).2.symm⟩

/-- Every decision file is accepted. -/
theorem accepts_decisionFile (h : decisions ≤ 100) (hn : n < decisions) :
    Accepts hash templateParsers IngestConfig.default (decisionFiles decisions) (decisionFile n)
      ⟨decisionNode n, [], []⟩ := by
  have hinput : decisionFile n ∈ decisionFiles decisions :=
    List.mem_map_of_mem (List.mem_range.mpr hn)
  refine (accepts_iff (nodup_decisionFiles h) hinput).mpr ⟨?_, ⟨_, parseInput_decisionFile
    (by omega) hash⟩, fun other hother _ document hdocument hid => ?_⟩
  · have hrank : rank (decisionFiles decisions) (decisionFile n) ≤ decisions := by
      refine (List.length_filter_le _ _).trans ?_
      rw [(byPath_perm _).length_eq]
      unfold decisionFiles
      rw [List.length_map, List.length_range]
    exact hrank.trans_lt (h.trans_lt (by decide))
  · -- decisions with one identifier are one decision
    obtain ⟨m, hm, rfl⟩ := exists_of_accepts h hother hdocument
    rw [decisionId_inj (by omega) (by omega) hid]

theorem mem_records_decisionFiles (h : decisions ≤ 100) {node : EvidenceNode} :
    node ∈ (ingest hash templateParsers IngestConfig.default (decisionFiles decisions)).records ↔
      ∃ n < decisions, decisionNode n = node := by
  rw [mem_records_iff (nodup_decisionFiles h)]
  constructor
  · rintro ⟨input, hinput, parsed, haccepts, rfl⟩
    obtain ⟨n, hn, rfl⟩ := exists_of_accepts h hinput haccepts
    exact ⟨n, hn, rfl⟩
  · rintro ⟨n, hn, rfl⟩
    exact ⟨decisionFile n, List.mem_map_of_mem (List.mem_range.mpr hn), _,
      accepts_decisionFile h hn, rfl⟩

/-- Nothing comes of the decision files but their records. -/
theorem flatMap_contributions_decisionFiles (h : decisions ≤ 100) {α : Type}
    {f : ParsedInput → List α} (hf : ∀ n < decisions, f ⟨decisionNode n, [], []⟩ = []) :
    (contributions hash templateParsers IngestConfig.default (decisionFiles decisions)).flatMap f =
      [] := by
  rw [List.eq_nil_iff_forall_not_mem]
  intro a ha
  obtain ⟨input, hinput, parsed, haccepts, ha⟩ := mem_flatMap_contributions.mp ha
  obtain ⟨n, hn, rfl⟩ := exists_of_accepts h hinput haccepts
  rw [hf n hn] at ha
  exact absurd ha List.not_mem_nil

theorem edges_decisionFiles (h : decisions ≤ 100) :
    (ingest hash templateParsers IngestConfig.default (decisionFiles decisions)).edges = [] := by
  rw [edges_eq (nodup_decisionFiles h),
    flatMap_contributions_decisionFiles h (fun _ _ => rfl)]
  rfl

theorem conflicts_decisionFiles (h : decisions ≤ 100) :
    (ingest hash templateParsers IngestConfig.default (decisionFiles decisions)).conflicts = [] := by
  rw [conflicts_eq (nodup_decisionFiles h),
    flatMap_contributions_decisionFiles h (fun _ _ => rfl), sortUniq_eq_nil]

end Batches

/-! ### What is published -/

section Published

variable {commits decisions : Nat} {k : String}

/-- The records of the repository: its commits and its decisions. -/
theorem mem_records_decisionLog (h : decisions ≤ 100) :
    k ∈ (logPublication commits decisions).evidence.records ↔
      k ∈ (List.range commits).map numberedCommit ++ (List.range decisions).map decisionId := by
  show k ∈ localRecords epoch ((List.range commits).map (followingCommit decisions))
    (ingest id templateParsers IngestConfig.default (decisionFiles decisions)) ↔ _
  unfold localRecords
  rw [mem_insertAll, mem_indexBy, List.mem_append, List.mem_map, List.mem_map, or_comm]
  simp only [mem_records_decisionFiles h, List.mem_map, List.mem_range]
  refine or_congr ?_ ?_
  · constructor
    · rintro ⟨_, ⟨_, ⟨n, hn, rfl⟩, rfl⟩, rfl⟩
      exact ⟨n, hn, rfl⟩
    · rintro ⟨n, hn, rfl⟩
      exact ⟨_, ⟨_, ⟨n, hn, rfl⟩, rfl⟩, rfl⟩
  · constructor
    · rintro ⟨_, ⟨n, hn, rfl⟩, rfl⟩
      exact ⟨n, hn, rfl⟩
    · rintro ⟨n, hn, rfl⟩
      exact ⟨_, ⟨n, hn, rfl⟩, rfl⟩

/-- The references of a commit, one by one. -/
theorem commitReferenceEdges_followingCommit (n : Nat) :
    commitReferenceEdges id (followingCommit decisions n) =
      (List.range decisions).map (followsEdge n) := by
  show List.filterMap _ ((List.range decisions).map fun decision =>
    (⟨.decision, decisionId decision⟩ : ExplicitReference)) = _
  rw [List.filterMap_map, ← List.filterMap_eq_map]
  rfl

/-- The references of all commits. -/
def followsEdges (commits decisions : Nat) : List EvidenceEdge :=
  (List.range commits).flatMap fun n => (List.range decisions).map (followsEdge n)

/-- The edges of the repository: each commit follows each decision. -/
theorem edges_decisionLog (h : decisions ≤ 100) :
    (logPublication commits decisions).evidence.edges =
      indexBy EvidenceEdge.id (followsEdges commits decisions) := by
  have hproposed : proposedEdges id ((List.range commits).map (followingCommit decisions))
      (ingest id templateParsers IngestConfig.default (decisionFiles decisions)) =
        followsEdges commits decisions := by
    unfold proposedEdges followsEdges
    rw [edges_decisionFiles h, List.nil_append, List.flatMap_map]
    exact List.flatMap_congr (fun n _ => commitReferenceEdges_followingCommit n)
  show indexBy EvidenceEdge.id (List.filter _ (proposedEdges id
    ((List.range commits).map (followingCommit decisions))
    (ingest id templateParsers IngestConfig.default (decisionFiles decisions)))) = _
  rw [hproposed, List.filter_eq_self.mpr]
  -- both ends are published
  intro e he
  obtain ⟨n, hn, he⟩ := List.mem_flatMap.mp he
  obtain ⟨decision, hdecision, rfl⟩ := List.mem_map.mp he
  refine edgeResolved_iff.mpr ⟨?_, ?_⟩
  · exact (mem_records_decisionLog h).mpr (List.mem_append_left _ (List.mem_map_of_mem hn))
  · exact (mem_records_decisionLog h).mpr (List.mem_append_right _ (List.mem_map_of_mem hdecision))

theorem conflicts_decisionLog (h : decisions ≤ 100) :
    (logPublication commits decisions).evidence.conflicts = [] := by
  show List.filter _ (ingest id templateParsers IngestConfig.default
    (decisionFiles decisions)).conflicts = []
  rw [conflicts_decisionFiles h]
  rfl

/-- The identifiers of the references are distinct. -/
theorem followsEdge_id_inj {m n i j : Nat} (hm : m < 4096) (hn : n < 4096) (hi : i < 100)
    (hj : j < 100) (h : (followsEdge m i).id = (followsEdge n j).id) : m = n ∧ i = j := by
  have hcommit : ∀ n < 4096, '\x00' ∉ (numberedCommit n).toList := by
    intro n hn hmem
    unfold numberedCommit at hmem
    rw [String.toList_ofList] at hmem
    have hdigit : ∀ a < 16, Nat.digitChar a ≠ '\x00' := by decide
    rcases List.mem_append.mp hmem with hmem | hmem
    · simp only [hexDigits, List.mem_cons, List.not_mem_nil, or_false] at hmem
      rcases hmem with heq | heq | heq
      · exact hdigit _ (by omega) heq.symm
      · exact hdigit _ (by omega) heq.symm
      · exact hdigit _ (by omega) heq.symm
    · exact absurd (List.eq_of_mem_replicate hmem) (by decide)
  have hdecision : ∀ n < 100, '\x00' ∉ (decisionId n).toList := fun n hn =>
    notMem_of_validateId (validateId_decisionId hn)
  have hids : "edge:".toList ++ (hashedText (followsEdge m i)).toList =
      "edge:".toList ++ (hashedText (followsEdge n j)).toList := by
    have hlist : ("edge:" ++ hashedText (followsEdge m i)).toList =
        ("edge:" ++ hashedText (followsEdge n j)).toList := congrArg String.toList h
    rwa [String.toList_append, String.toList_append] at hlist
  have htext := String.toList_injective (List.append_cancel_left hids)
  obtain ⟨-, hsource, htarget, -⟩ := edgeMaterial_inj (hcommit m hm) (hcommit n hn)
    (hdecision i hi) (hdecision j hj) htext
  exact ⟨numberedCommit_inj hm hn hsource, decisionId_inj hi hj htarget⟩

/-- The number of records. -/
theorem length_records_decisionLog (hc : commits ≤ 4096) (hd : decisions ≤ 100) :
    (values (logPublication commits decisions).evidence.records).length = commits + decisions := by
  have hnodup : ((List.range commits).map numberedCommit ++
      (List.range decisions).map decisionId).Nodup := by
    refine List.nodup_append'.mpr ⟨?_, ?_, ?_⟩
    · refine List.Nodup.map_on (fun a ha b hb heq => ?_) List.nodup_range
      rw [List.mem_range] at ha hb
      exact numberedCommit_inj (by omega) (by omega) heq
    · refine List.Nodup.map_on (fun a ha b hb heq => ?_) List.nodup_range
      rw [List.mem_range] at ha hb
      exact decisionId_inj (by omega) (by omega) heq
    · intro id hcommit hdecision
      obtain ⟨m, -, rfl⟩ := List.mem_map.mp hcommit
      obtain ⟨n, -, heq⟩ := List.mem_map.mp hdecision
      exact numberedCommit_ne_decisionId m n heq.symm
  rw [(logPublication commits decisions).evidence.records_keyed.length_values hnodup
    (fun k => (mem_records_decisionLog hd).trans (or_iff_left List.not_mem_nil).symm)]
  simp [sortUniq_eq_nil.mpr]

/-- The number of edges. -/
theorem length_edges_decisionLog (hc : commits ≤ 4096) (hd : decisions ≤ 100) :
    (values (logPublication commits decisions).evidence.edges).length = commits * decisions := by
  have hnodup : ((followsEdges commits decisions).map EvidenceEdge.id).Nodup := by
    unfold followsEdges
    rw [List.map_flatMap, List.nodup_flatMap]
    refine ⟨fun n hn => ?_, ?_⟩
    · rw [List.map_map]
      refine List.Nodup.map_on (fun a ha b hb heq => ?_) List.nodup_range
      rw [List.mem_range] at ha hb hn
      exact (followsEdge_id_inj (by omega) (by omega) (by omega) (by omega) heq).2
    · refine List.nodup_range.imp_of_mem (fun {m n} hm hn hne id hleft hright => ?_)
      obtain ⟨first, hfirst, rfl⟩ := List.mem_map.mp hleft
      obtain ⟨second, hsecond, heq⟩ := List.mem_map.mp hright
      obtain ⟨i, hi, rfl⟩ := List.mem_map.mp hfirst
      obtain ⟨j, hj, rfl⟩ := List.mem_map.mp hsecond
      rw [List.mem_range] at hm hn hi hj
      exact hne (followsEdge_id_inj (by omega) (by omega) (by omega) (by omega) heq.symm).1
  have hmem : ∀ k, k ∈ (logPublication commits decisions).evidence.edges ↔
      k ∈ (followsEdges commits decisions).map EvidenceEdge.id ∨ k ∈ [] := by
    intro k
    rw [edges_decisionLog hd, mem_indexBy, List.mem_map]
    simp
  rw [(logPublication commits decisions).evidence.edges_keyed.length_values hnodup hmem]
  simp [sortUniq_eq_nil.mpr, followsEdges]

end Published

end Rationale.Engine
