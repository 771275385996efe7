import Rationale.Git.Evidence
import Rationale.Library.SortUniq
import Rationale.Splitting

namespace Rationale.Git

open Std Rationale.Library Rationale.Text

/-!
# References of commit messages

`crates/rationale-git/src/references.rs`, and `commit_evidence` of `local.rs`, which reads a message
with it.

* `extract` — the explicit references of a message, sorted;
* `Canonical`, `render` — the values that references have, and the message that lists them;
* `extract_range` — what `extract` returns are the increasing lists of canonical references, and each
  of these is read back from its own rendering;
* `mem_extract_append` — a message in two parts has the references of both.
-/

/-! ### The translation -/

/-- The position of a variant in the derived order. -/
def ReferenceKind.position : ReferenceKind → Nat
  | .issue => 0
  | .story => 1
  | .decision => 2
  | .forgeUrl => 3

/-- The derived order: the kind, then the value. -/
def compareReferences : ExplicitReference → ExplicitReference → Ordering :=
  compareLex (compareOn fun reference => reference.kind.position) (compareOn ExplicitReference.value)

instance : TransCmp compareReferences := inferInstanceAs (TransCmp (compareLex _ _))

theorem ReferenceKind.eq_of_position {kind kind' : ReferenceKind}
    (h : kind.position = kind'.position) : kind = kind' := by
  cases kind <;> cases kind' <;> first | rfl | exact nomatch h

instance : LawfulEqCmp compareReferences where
  eq_of_compare {left right} h := by
    simp only [compareReferences, compareLex, compareOn, Ordering.then_eq_eq, Std.compare_eq_iff_eq]
      at h
    obtain ⟨kind, value⟩ := left
    obtain ⟨kind', value'⟩ := right
    obtain rfl : kind = kind' := ReferenceKind.eq_of_position h.1
    obtain rfl : value = value' := h.2
    rfl

/-- `str::to_ascii_uppercase`. -/
def toAsciiUppercase (text : List Char) : List Char := text.map Char.toUpper

/-- `str::contains`. -/
def containsText (pattern : List Char) : List Char → Bool
  | [] => pattern = []
  | c :: text => pattern.isPrefixOf (c :: text) || containsText pattern text

def digits (value : List Char) : Bool := value ≠ [] && value.all Char.isDigit

/-- What is trimmed from a token; the last one is the backtick. -/
def isWrapping (c : Char) : Bool :=
  [',', '.', ';', '(', ')', '[', ']', Char.ofNat 0x60].contains c

/-- Whether a token is the word that turns the number after it into a story. -/
def isStoryWord (token : List Char) : Bool :=
  toAsciiLowercase (trimMatches (fun c => !isAsciiAlphanumeric c) token) = "story".toList

/-- The number behind a prefix. -/
def numberAfter (pre text : List Char) : Option (List Char) :=
  (stripPrefix pre text).filter digits

def isForgeUrl (cleaned : List Char) : Bool :=
  ("https://".toList.isPrefixOf cleaned || "http://".toList.isPrefixOf cleaned) &&
    (containsText "/issues/".toList cleaned || containsText "/pull/".toList cleaned)

/-- The body of the loop: what one token refers to, after the token before it. -/
def reference (previous : Option (List Char)) (token : List Char) : Option ExplicitReference :=
  let cleaned := trimMatches isWrapping token
  match numberAfter ['#'] cleaned with
  | some number =>
    if previous.any isStoryWord then
      some ⟨.story, String.ofList ("STORY-".toList ++ number)⟩
    else some ⟨.issue, String.ofList ('#' :: number)⟩
  | none =>
    let uppercase := toAsciiUppercase cleaned
    match numberAfter "STORY-".toList uppercase with
    | some number => some ⟨.story, String.ofList ("STORY-".toList ++ number)⟩
    | none => match numberAfter "ADR-".toList uppercase with
      | some number => some ⟨.decision, String.ofList ("ADR-".toList ++ number)⟩
      | none => if isForgeUrl cleaned then some ⟨.forgeUrl, String.ofList cleaned⟩ else none

def referencesAfter (previous : Option (List Char)) : List (List Char) → List ExplicitReference
  | [] => []
  | token :: tokens => (reference previous token).toList ++ referencesAfter (some token) tokens

def extract (message : String) : List ExplicitReference :=
  dedupBy (· == ·)
    (sortBy compareReferences (referencesAfter none (splitWhitespace message.toList)))

/-- What libgit2 knows of a commit; texts are read lossily as UTF-8. -/
structure CommitObject where
  id : String
  summary : String
  seconds : Int
  message : String
  deriving DecidableEq, Repr

def commitEvidence (commit : CommitObject) : CommitEvidence :=
  ⟨commit.id, commit.summary, commit.seconds, extract commit.message⟩

/-! ### Canonical references -/

/-- A reference in its normal form. -/
inductive Canonical : ExplicitReference → Prop where
  | issue {number : List Char} (h : digits number = true) :
      Canonical ⟨.issue, String.ofList ('#' :: number)⟩
  | story {number : List Char} (h : digits number = true) :
      Canonical ⟨.story, String.ofList ("STORY-".toList ++ number)⟩
  | decision {number : List Char} (h : digits number = true) :
      Canonical ⟨.decision, String.ofList ("ADR-".toList ++ number)⟩
  /-- An address of an issue or a pull request, without white space or punctuation after it. -/
  | forgeUrl {url : List Char} (names : isForgeUrl url = true)
      (solid : ∀ c ∈ url, isWhitespace c = false)
      (closed : ∀ c, url.getLast? = some c → isWrapping c = false) :
      Canonical ⟨.forgeUrl, String.ofList url⟩

/-- Canonical references, each once and in order. -/
structure Normal (references : List ExplicitReference) : Prop where
  increasing : references.Pairwise fun a b => compareReferences a b = .lt
  canonical : ∀ reference ∈ references, Canonical reference

/-- The message that lists references. -/
def render (references : List ExplicitReference) : String :=
  String.ofList ([' '].intercalate (references.map (·.value.toList)))

/-! ### Characters of canonical values -/

section Values

variable {number value cleaned : List Char} {c : Char}

theorem digits_iff : digits number = true ↔ number ≠ [] ∧ ∀ c ∈ number, c.isDigit = true := by
  simp [digits]

theorem isDigit_bounds (h : c.isDigit = true) : 48 ≤ c.toNat ∧ c.toNat ≤ 57 := by
  unfold Char.isDigit at h
  simpa [UInt32.le_iff_toNat_le] using h

theorem isWhitespace_of_bounds (h : 33 ≤ c.toNat ∧ c.toNat ≤ 126) : isWhitespace c = false := by
  simp [isWhitespace]
  omega

theorem isWrapping_of_isDigit (h : c.isDigit = true) : isWrapping c = false := by
  have hbounds := isDigit_bounds h
  have hne : ∀ d : Char, c.toNat ≠ d.toNat → c ≠ d := fun d hd heq => hd (congrArg Char.toNat heq)
  simp only [isWrapping, List.contains_eq_mem, decide_eq_false_iff_not, List.mem_cons,
    List.not_mem_nil, or_false, not_or]
  refine ⟨?_, ?_, ?_, ?_, ?_, ?_, ?_, ?_⟩ <;> apply hne <;> simp <;> omega

/-- The upper case of a digit, and its lower case, are the digit. -/
theorem toUpper_of_isDigit (h : c.isDigit = true) : c.toUpper = c := by
  have hbounds := isDigit_bounds h
  unfold Char.toUpper
  rw [dif_neg]
  simp only [UInt32.le_iff_toNat_le]
  show ¬ (97 ≤ c.toNat ∧ _)
  omega

theorem toLower_of_isDigit (h : c.isDigit = true) : c.toLower = c := by
  have hbounds := isDigit_bounds h
  rcases toLower_cases c with ⟨heq, -⟩ | ⟨hupper, -⟩
  · exact heq
  · omega

theorem numberAfter_eq_some {p : List Char} :
    numberAfter p value = some number ↔ value = p ++ number ∧ digits number = true := by
  unfold numberAfter
  rw [Option.filter_eq_some_iff, stripPrefix_eq_some]

/-- A text that starts with another character has no number behind the prefix. -/
theorem numberAfter_eq_none {p : List Char} (hc : p.head? = some c) (h : value.head? ≠ some c) :
    numberAfter p value = none := by
  rw [Option.eq_none_iff_forall_ne_some]
  intro number hnumber
  obtain ⟨rest, rfl⟩ := List.head?_eq_some_iff.mp hc
  rw [(numberAfter_eq_some.mp hnumber).1] at h
  exact h rfl

theorem uppercase_append (h : digits number = true) (p : List Char) :
    toAsciiUppercase (p ++ number) = toAsciiUppercase p ++ number := by
  unfold toAsciiUppercase
  rw [List.map_append,
    List.map_congr_left (fun c hc => toUpper_of_isDigit ((digits_iff.mp h).2 c hc)), List.map_id']

/-- An address starts with the first letter of its scheme. -/
theorem head?_of_isForgeUrl (h : isForgeUrl cleaned = true) : cleaned.head? = some 'h' := by
  unfold isForgeUrl at h
  rw [Bool.and_eq_true, Bool.or_eq_true, List.isPrefixOf_iff_prefix, List.isPrefixOf_iff_prefix] at h
  rcases h.1 with ⟨rest, rfl⟩ | ⟨rest, rfl⟩
  · rfl
  · rfl

/-- A token with another letter or digit in it is not the word before a story. -/
theorem isStoryWord_eq_false (hmem : c ∈ value) (hkept : isAsciiAlphanumeric c = true)
    (hother : c.toLower ∉ "story".toList) : isStoryWord value = false := by
  unfold isStoryWord
  rw [decide_eq_false_iff_not]
  intro heq
  have hin : c.toLower ∈
      toAsciiLowercase (trimMatches (fun c => !isAsciiAlphanumeric c) value) :=
    List.mem_map_of_mem (mem_trimMatches hmem (by simp [hkept]))
  rw [heq] at hin
  exact hother hin

/-- What a token must be to be read back: solid, with nothing to trim, and not the word before a
    story. -/
structure Readable (value : List Char) : Prop where
  ne_nil : value ≠ []
  solid : ∀ c ∈ value, isWhitespace c = false
  trimmed : trimMatches isWrapping value = value
  not_story : isStoryWord value = false

/-- A number behind a prefix is readable. -/
theorem readable_numbered {p : List Char} (h : digits number = true) (hhead : p.head? = some c)
    (hc : isWrapping c = false) (hsolid : p.any isWhitespace = false) :
    Readable (p ++ number) := by
  obtain ⟨rest, rfl⟩ := List.head?_eq_some_iff.mp hhead
  obtain ⟨hne, hdigit⟩ := digits_iff.mp h
  have hlast : ∀ d, (c :: rest ++ number).getLast? = some d → d.isDigit = true := by
    intro d hd
    rw [List.getLast?_append_of_ne_nil _ hne] at hd
    exact hdigit d (List.mem_of_getLast? hd)
  constructor
  case ne_nil => exact List.cons_ne_nil _ _
  case solid =>
    intro d hd
    rcases List.mem_append.mp hd with hd | hd
    · simpa using List.any_eq_false.mp hsolid d hd
    · obtain ⟨hlow, hhigh⟩ := isDigit_bounds (hdigit d hd)
      exact isWhitespace_of_bounds ⟨by omega, by omega⟩
  case trimmed =>
    refine trimMatches_eq_self (fun d hd => ?_) (fun d hd => isWrapping_of_isDigit (hlast d hd))
    rw [← Option.some.inj hd]
    exact hc
  case not_story =>
    -- a digit is left, and is no letter of the word
    obtain ⟨d, more, rfl⟩ := List.exists_cons_of_ne_nil hne
    have hd := hdigit d List.mem_cons_self
    have hbounds := isDigit_bounds hd
    refine isStoryWord_eq_false (c := d) (by simp) ?_ ?_
    · simp [isAsciiAlphanumeric, Char.isAlphanum, hd]
    · rw [toLower_of_isDigit hd]
      intro hmem
      have hall : ("story".toList.all fun e => 97 ≤ e.toNat) = true := by decide
      have hle := of_decide_eq_true (List.all_eq_true.mp hall d hmem)
      omega

/-- An address is readable. -/
theorem readable_forgeUrl (h : isForgeUrl value = true)
    (hsolid : ∀ c ∈ value, isWhitespace c = false)
    (hclosed : ∀ c, value.getLast? = some c → isWrapping c = false) : Readable value := by
  have hhead := head?_of_isForgeUrl h
  obtain ⟨rest, rfl⟩ := List.head?_eq_some_iff.mp hhead
  constructor
  case ne_nil => exact List.cons_ne_nil _ _
  case solid => exact hsolid
  case trimmed =>
    refine trimMatches_eq_self (fun c hc => ?_) hclosed
    rw [← Option.some.inj hc]
    decide
  case not_story => exact isStoryWord_eq_false List.mem_cons_self (by decide) (by decide)

theorem Canonical.readable {reference : ExplicitReference} (h : Canonical reference) :
    Readable reference.value.toList := by
  cases h with
  | issue h =>
    rw [String.toList_ofList]
    exact readable_numbered (p := ['#']) h rfl (by decide) (by decide)
  | story h =>
    rw [String.toList_ofList]
    exact readable_numbered h rfl (by decide) (by decide)
  | decision h =>
    rw [String.toList_ofList]
    exact readable_numbered h rfl (by decide) (by decide)
  | forgeUrl names solid closed =>
    rw [String.toList_ofList]
    exact readable_forgeUrl names solid closed

end Values

/-! ### One token -/

section Token

variable {previous : Option (List Char)} {token : List Char} {found : ExplicitReference}

/-- What a token refers to is canonical. -/
theorem canonical_of_reference (h : reference previous token = some found)
    (hsolid : ∀ c ∈ token, isWhitespace c = false) : Canonical found := by
  unfold reference at h
  dsimp only at h
  cases hissue : numberAfter ['#'] (trimMatches isWrapping token) with
  | some number =>
    have hdigits := (numberAfter_eq_some.mp hissue).2
    simp only [hissue] at h
    split at h
    · rw [← Option.some.inj h]
      exact .story hdigits
    · rw [← Option.some.inj h]
      exact .issue hdigits
  | none =>
    simp only [hissue] at h
    split at h
    · next number hnumber =>
      rw [← Option.some.inj h]
      exact .story (numberAfter_eq_some.mp hnumber).2
    split at h
    · next number hnumber =>
      rw [← Option.some.inj h]
      exact .decision (numberAfter_eq_some.mp hnumber).2
    split at h
    · next hurl =>
      rw [← Option.some.inj h]
      exact .forgeUrl hurl (fun c hc => hsolid c (mem_of_mem_trimMatches hc))
        (fun c hc => getLast?_trimMatches hc)
    · exact nomatch h

/-- A canonical reference is read back from its value. -/
theorem reference_of_canonical (h : Canonical found) (hprevious : previous.any isStoryWord = false) :
    reference previous found.value.toList = some found := by
  have htrimmed := h.readable.trimmed
  unfold reference
  rw [htrimmed]
  cases h with
  | @issue number h =>
    have hnumber : numberAfter ['#'] ('#' :: number) = some number :=
      numberAfter_eq_some.mpr ⟨rfl, h⟩
    simp only [String.toList_ofList, hnumber, hprevious]
    rfl
  | @story number h =>
    have hissue : numberAfter ['#'] ("STORY-".toList ++ number) = none :=
      numberAfter_eq_none rfl (fun heq => absurd (Option.some.inj heq) (by decide))
    have hupper : toAsciiUppercase ("STORY-".toList ++ number) = "STORY-".toList ++ number :=
      uppercase_append h _
    have hnumber : numberAfter "STORY-".toList ("STORY-".toList ++ number) = some number :=
      numberAfter_eq_some.mpr ⟨rfl, h⟩
    simp only [String.toList_ofList, hissue, hupper, hnumber]
  | @decision number h =>
    have hissue : numberAfter ['#'] ("ADR-".toList ++ number) = none :=
      numberAfter_eq_none rfl (fun heq => absurd (Option.some.inj heq) (by decide))
    have hupper : toAsciiUppercase ("ADR-".toList ++ number) = "ADR-".toList ++ number :=
      uppercase_append h _
    have hstory : numberAfter "STORY-".toList ("ADR-".toList ++ number) = none :=
      numberAfter_eq_none rfl (fun heq => absurd (Option.some.inj heq) (by decide))
    have hnumber : numberAfter "ADR-".toList ("ADR-".toList ++ number) = some number :=
      numberAfter_eq_some.mpr ⟨rfl, h⟩
    simp only [String.toList_ofList, hissue, hupper, hstory, hnumber]
  | @forgeUrl url names solid closed =>
    obtain ⟨rest, rfl⟩ := List.head?_eq_some_iff.mp (head?_of_isForgeUrl names)
    have hissue : numberAfter ['#'] ('h' :: rest) = none :=
      numberAfter_eq_none rfl (fun heq => absurd (Option.some.inj heq) (by decide))
    -- its first letter is neither that of a story nor that of a decision
    have hstory : numberAfter "STORY-".toList (toAsciiUppercase ('h' :: rest)) = none :=
      numberAfter_eq_none rfl (fun heq => absurd (Option.some.inj heq) (by decide))
    have hdecision : numberAfter "ADR-".toList (toAsciiUppercase ('h' :: rest)) = none :=
      numberAfter_eq_none rfl (fun heq => absurd (Option.some.inj heq) (by decide))
    simp only [String.toList_ofList, hissue, hstory, hdecision, names, if_true]

end Token

/-! ### Whole messages -/

section Messages

variable {previous : Option (List Char)} {token : List Char} {tokens tokens' : List (List Char)}
  {references : List ExplicitReference} {found : ExplicitReference}

theorem canonical_of_mem (hsolid : ∀ token ∈ tokens, ∀ c ∈ token, isWhitespace c = false)
    (h : found ∈ referencesAfter previous tokens) : Canonical found := by
  induction tokens generalizing previous with
  | nil => exact nomatch h
  | cons token tokens ih =>
    rcases List.mem_append.mp h with h | h
    · rw [Option.mem_toList] at h
      exact canonical_of_reference h (hsolid token List.mem_cons_self)
    · exact ih (fun token htoken => hsolid token (List.mem_cons_of_mem _ htoken)) h

/-- Canonical references are read back, one after the other: none is the word before a story. -/
theorem referencesAfter_values (h : ∀ reference ∈ references, Canonical reference)
    (hprevious : previous.any isStoryWord = false) :
    referencesAfter previous (references.map (·.value.toList)) = references := by
  induction references generalizing previous with
  | nil => rfl
  | cons found references ih =>
    have hfound := h found List.mem_cons_self
    rw [List.map_cons, referencesAfter, reference_of_canonical hfound hprevious,
      ih (fun reference hmem => h reference (List.mem_cons_of_mem _ hmem))]
    · rfl
    · exact hfound.readable.not_story

@[simp] theorem mem_extract {message : String} :
    found ∈ extract message ↔ found ∈ referencesAfter none (splitWhitespace message.toList) := by
  unfold extract
  rw [mem_dedupBy, mem_sortBy]

theorem extract_pairwise (message : String) :
    (extract message).Pairwise fun a b => compareReferences a b = .lt :=
  @dedupBy_pairwise ExplicitReference ExplicitReference _ id compareReferences _ _ _
    (@sortBy_pairwise _ compareReferences _ _)

/-- What is extracted is normal. -/
theorem normal_extract (message : String) : Normal (extract message) where
  increasing := extract_pairwise message
  canonical _ h :=
    canonical_of_mem (fun _ htoken => (mem_splitWhitespace htoken).2) (mem_extract.mp h)

/-- **Round trip.** -/
theorem extract_render (h : Normal references) : extract (render references) = references := by
  have hwords : splitWhitespace (render references).toList = references.map (·.value.toList) := by
    unfold render
    rw [String.toList_ofList]
    apply splitWhitespace_intercalate
    intro word hword
    obtain ⟨reference, hmem, rfl⟩ := List.mem_map.mp hword
    have hreadable := (h.canonical reference hmem).readable
    exact ⟨hreadable.ne_nil, hreadable.solid⟩
  refine eq_of_pairwise_lt_of_mem_iff (extract_pairwise _) h.increasing (fun found => ?_)
  rw [mem_extract, hwords, referencesAfter_values h.canonical rfl]

/-- **The references of a message.** What can be extracted from a message are the increasing lists of
    canonical references, and these are the lists that are read back from their own rendering. -/
theorem extract_range (references : List ExplicitReference) :
    ((∃ message, extract message = references) ↔ Normal references) ∧
      (Normal references ↔ extract (render references) = references) := by
  refine ⟨⟨?_, fun h => ⟨_, extract_render h⟩⟩, extract_render, fun h => ?_⟩
  · rintro ⟨message, rfl⟩
    exact normal_extract message
  · rw [← h]
    exact normal_extract _

theorem referencesAfter_append :
    referencesAfter previous (tokens ++ tokens') =
      referencesAfter previous tokens ++ referencesAfter (tokens.getLast?.or previous) tokens' := by
  induction tokens generalizing previous with
  | nil => rfl
  | cons token tokens ih =>
    rw [List.cons_append, referencesAfter, ih, referencesAfter, List.append_assoc]
    cases tokens with
    | nil => rfl
    | cons next tokens => simp [List.getLast?_cons]

/-- Only a number reads the word before it. -/
theorem reference_congr {previous' : Option (List Char)}
    (h : numberAfter ['#'] (trimMatches isWrapping token) = none ∨
      previous.any isStoryWord = previous'.any isStoryWord) :
    reference previous token = reference previous' token := by
  unfold reference
  dsimp only
  rcases h with h | h
  · rw [h]
  · rw [h]

/-- The last word of the one text makes a story of the number that starts the other. -/
def joins (before after : String) : Bool :=
  (splitWhitespace before.toList).getLast?.any isStoryWord &&
    (splitWhitespace after.toList).head?.any fun word =>
      (numberAfter ['#'] (trimMatches isWrapping word)).isSome

/-- **A message in two parts** has the references of both, unless the white space between them comes
    between the word and the number of a story. -/
theorem mem_extract_append {before after : String} {separator : Char}
    (hseparator : isWhitespace separator = true) (hjoins : joins before after = false) :
    found ∈ extract (before ++ String.singleton separator ++ after) ↔
      found ∈ extract before ∨ found ∈ extract after := by
  have hwords : splitWhitespace (before ++ String.singleton separator ++ after).toList =
      splitWhitespace before.toList ++ splitWhitespace after.toList := by
    rw [String.toList_append, String.toList_append, String.toList_singleton, List.append_assoc,
      List.singleton_append]
    exact splitWhitespace_append hseparator
  have hafter : referencesAfter ((splitWhitespace before.toList).getLast?.or none)
      (splitWhitespace after.toList) = referencesAfter none (splitWhitespace after.toList) := by
    unfold joins at hjoins
    cases hsplit : splitWhitespace after.toList with
    | nil => rfl
    | cons word words =>
      rw [hsplit, List.head?_cons, Option.any_some, Bool.and_eq_false_iff] at hjoins
      rw [referencesAfter, referencesAfter, reference_congr]
      rw [Option.or_none]
      refine hjoins.symm.imp (fun h => ?_) (fun h => ?_)
      · exact Option.not_isSome_iff_eq_none.mp (by rw [h]; decide)
      · rw [h]
        rfl
  rw [mem_extract, mem_extract, mem_extract, hwords, referencesAfter_append, hafter, List.mem_append]

theorem mem_extract_append_sample :
    (⟨.decision, "ADR-0007"⟩ : ExplicitReference) ∈
      extract ("Fixes #44; story:" ++ String.singleton '\n' ++ "adr-0007.") :=
  (mem_extract_append (by decide) (by decide)).mpr (Or.inr (by decide))

end Messages

end Rationale.Git
