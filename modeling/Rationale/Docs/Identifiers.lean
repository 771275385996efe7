import Rationale.Docs.Text
import Rationale.Splitting

namespace Rationale.Docs

open Std Rationale.Library Rationale.Text

/-!
# Identifiers in prose

`find_identifiers` of `crates/rationale-docs/src/lib.rs` against a definition of tokens.

* `Occurs` — a configured prefix, a suffix, and no further suffix character;
* `WholeToken` — an occurrence without an identifier character before it;
* `Recognized` — what the scan accepts: it takes a hyphen for a boundary;
* `mem_findIdentifiers` — the scan returns the recognized identifiers;
* `wholeTokensOnly_iff` — they are the whole tokens, without overlaps, exactly when no identifier
  starts behind a hyphen only, and none starts inside another one.
-/

/-! ### Tokens -/

section Tokens

variable (patterns : IdPatterns) (text before id after : List Char)

/-- The identifier occurs in the text: a prefix with a suffix that goes as far as it can. -/
structure Occurs : Prop where
  text_eq : text = before ++ id ++ after
  shape : ∃ pre ∈ patterns.prefixes, ∃ suffix, id = pre.toList ++ suffix ∧ suffix ≠ [] ∧
    ∀ c ∈ suffix, isSuffixChar c = true
  ends : ∀ c ∈ after.head?, isSuffixChar c = false

/-- Neither a letter, a digit, a hyphen nor an underscore comes before the occurrence. -/
structure WholeToken : Prop extends Occurs patterns text before id after where
  starts : ∀ c ∈ before.getLast?, isSuffixChar c = false

/-- The left boundary of `boundary_before`. -/
structure Recognized : Prop extends Occurs patterns text before id after where
  boundary : boundaryBefore before.getLast? = true

/-- The occurrence stands right behind a hyphen. -/
structure BehindHyphen : Prop extends Occurs patterns text before id after where
  hyphen : before.getLast? = some '-'

end Tokens

section Boundary

variable {patterns : IdPatterns} {text before id after : List Char}

/-- Only a hyphen is both a boundary and an identifier character. -/
theorem boundaryBefore_iff {c : Char} :
    boundaryBefore (some c) = true ↔ c = '-' ∨ isSuffixChar c = false := by
  by_cases hc : c = '-'
  · subst hc
    decide
  · simp [boundaryBefore, isSuffixChar, hc]

theorem WholeToken.recognized (h : WholeToken patterns text before id after) :
    Recognized patterns text before id after where
  toOccurs := h.toOccurs
  boundary := by
    cases hlast : before.getLast? with
    | none => rfl
    | some c => exact boundaryBefore_iff.mpr (Or.inr (h.starts c hlast))

theorem BehindHyphen.recognized (h : BehindHyphen patterns text before id after) :
    Recognized patterns text before id after where
  toOccurs := h.toOccurs
  boundary := by
    rw [h.hyphen]
    decide

theorem Recognized.cases (h : Recognized patterns text before id after) :
    WholeToken patterns text before id after ∨ BehindHyphen patterns text before id after := by
  have hboundary := h.boundary
  cases hlast : before.getLast? with
  | none => exact Or.inl ⟨h.toOccurs, by simp [hlast]⟩
  | some c =>
    rw [hlast, boundaryBefore_iff] at hboundary
    rcases hboundary with rfl | hc
    · exact Or.inr ⟨h.toOccurs, hlast⟩
    · exact Or.inl ⟨h.toOccurs, by simpa [hlast] using hc⟩

theorem Occurs.ne_nil (h : Occurs patterns text before id after) : id ≠ [] := by
  obtain ⟨pre, -, suffix, rfl, hne, -⟩ := h.shape
  simp [hne]

end Boundary

/-! ### The scan -/

section Scan

variable {prefixes : List (List Char)} {before? : Option Char} {text rest : List Char} {id : String}

/-- The suffix that the scan takes is the longest one. -/
theorem mem_identifiersAt : id ∈ identifiersAt prefixes before? rest ↔
    boundaryBefore before? = true ∧ ∃ pre ∈ prefixes, ∃ suffix after,
      rest = pre ++ suffix ++ after ∧ suffix ≠ [] ∧ (∀ c ∈ suffix, isSuffixChar c = true) ∧
        (∀ c ∈ after.head?, isSuffixChar c = false) ∧ id = String.ofList (pre ++ suffix) := by
  have hvalid : ∀ pre suffix : List Char, suffix ≠ [] → (∀ c ∈ suffix, isSuffixChar c = true) →
      validPrefixed (pre ++ suffix) pre = true := by
    intro pre suffix hne hall
    simp [validPrefixed, hne]
    exact hall
  unfold identifiersAt
  rw [List.mem_filterMap]
  constructor
  · -- a prefix matches: the suffix is all that may follow it
    rintro ⟨pre, hpre, h⟩
    split at h
    · exact nomatch h
    rename_i hstart
    simp only [Bool.or_eq_true, Bool.not_eq_true', not_or, Bool.not_eq_false,
      List.isPrefixOf_iff_prefix] at hstart
    obtain ⟨⟨tail, rfl⟩, hboundary⟩ := hstart
    rw [List.drop_left] at h
    dsimp only at h
    split at h
    · exact nomatch h
    rename_i hne
    rw [hvalid _ _ (by simpa using hne) (fun c hc => (List.mem_takeWhile_imp hc)), if_pos rfl] at h
    refine ⟨hboundary, pre, hpre, tail.takeWhile isSuffixChar, tail.dropWhile isSuffixChar, ?_,
      by simpa using hne, fun c hc => List.mem_takeWhile_imp hc, fun c hc => ?_,
      (Option.some.inj h).symm⟩
    · rw [List.append_assoc, List.takeWhile_append_dropWhile]
    · have hhead := List.head?_dropWhile_not isSuffixChar tail
      rw [Option.mem_def.mp hc] at hhead
      exact hhead
  · rintro ⟨hboundary, pre, hpre, suffix, after, rfl, hne, hall, hends, rfl⟩
    refine ⟨pre, hpre, ?_⟩
    have hstart : pre.isPrefixOf (pre ++ suffix ++ after) = true := by
      rw [List.isPrefixOf_iff_prefix, List.append_assoc]
      exact List.prefix_append _ _
    -- the scan stops where the suffix ends
    have htake : (suffix ++ after).takeWhile isSuffixChar = suffix := by
      rw [List.takeWhile_append_of_pos hall]
      cases after with
      | nil => simp
      | cons c after => simp [hends c rfl]
    rw [hstart, hboundary, List.append_assoc, List.drop_left]
    simp only [Bool.not_true, Bool.or_self, Bool.false_eq_true, if_false, htake]
    rw [if_neg (by simpa using hne), hvalid pre suffix hne hall, if_pos rfl]

theorem mem_scanIdentifiers : id ∈ scanIdentifiers prefixes before? text ↔
    ∃ before rest, text = before ++ rest ∧ rest ≠ [] ∧
      id ∈ identifiersAt prefixes (before.getLast?.or before?) rest := by
  induction text generalizing before? with
  | nil =>
    constructor
    · exact (nomatch ·)
    · rintro ⟨before, rest, htext, hne, -⟩
      exact absurd (List.append_eq_nil_iff.mp htext.symm).2 hne
  | cons c text ih =>
    rw [scanIdentifiers, List.mem_append, ih]
    have hlast : ∀ before : List Char,
        (c :: before).getLast?.or before? = before.getLast?.or (some c) := by
      intro before
      cases before with
      | nil => rfl
      | cons c' before =>
        rw [List.getLast?_cons_cons]
        cases hlast : (c' :: before).getLast? with
        | none => simp at hlast
        | some c'' => rfl
    constructor
    · rintro (h | ⟨before, rest, rfl, hne, h⟩)
      · exact ⟨[], c :: text, rfl, List.cons_ne_nil c text, h⟩
      · exact ⟨c :: before, rest, rfl, hne, by rwa [hlast]⟩
    · rintro ⟨before, rest, htext, hne, h⟩
      cases before with
      | nil =>
        obtain rfl : c :: text = rest := htext
        exact Or.inl h
      | cons c' before =>
        obtain ⟨rfl, rfl⟩ := List.cons.inj htext
        exact Or.inr ⟨before, rest, rfl, hne, by rwa [hlast] at h⟩

end Scan

/-! ### Whole tokens -/

section Tokens

variable {patterns : IdPatterns} {source : String} {id : String}

/-- Every configured prefix is looked for. -/
theorem mem_prefixes {pre : String} : pre ∈ patterns.prefixes ↔
    pre ∈ patterns.workItems ++ patterns.decisions ++ patterns.verifications := by
  rw [IdPatterns.prefixes, mem_dedupBy, mem_sortBy]

/-- **The scan** returns the recognized identifiers. -/
theorem mem_findIdentifiers : id ∈ findIdentifiers source patterns ↔
    ∃ before after, Recognized patterns source.toList before id.toList after := by
  rw [findIdentifiers, mem_sortUniq, mem_scanIdentifiers]
  constructor
  · rintro ⟨before, rest, htext, -, h⟩
    rw [mem_identifiersAt, Option.or_none] at h
    obtain ⟨hboundary, pre, hpre, suffix, after, rfl, hne, hall, hends, rfl⟩ := h
    obtain ⟨name, hname, rfl⟩ := List.mem_map.mp hpre
    refine ⟨before, after, ⟨?_, ⟨name, hname, suffix, ?_, hne, hall⟩, hends⟩, hboundary⟩
    · rw [htext, String.toList_ofList, List.append_assoc before]
    · rw [String.toList_ofList]
  · rintro ⟨before, after, h⟩
    obtain ⟨name, hname, suffix, hid, hne, hall⟩ := h.shape
    refine ⟨before, id.toList ++ after, ?_, ?_, ?_⟩
    · rw [h.text_eq, List.append_assoc]
    · simp [hid, hne]
    · rw [mem_identifiersAt, Option.or_none]
      refine ⟨h.boundary, name.toList, List.mem_map_of_mem hname, suffix, after, ?_, hne, hall,
        h.ends, ?_⟩
      · rw [hid]
      · rw [← hid, String.ofList_toList]

end Tokens

/-- The identifiers of a text are its whole tokens, and those that are returned do not overlap. -/
structure WholeTokensOnly (source : String) (patterns : IdPatterns) : Prop where
  mem_iff : ∀ id, id ∈ findIdentifiers source patterns ↔
    ∃ before after, WholeToken patterns source.toList before id.toList after
  disjoint : ∀ id ∈ findIdentifiers source patterns, ∀ id' ∈ findIdentifiers source patterns,
    ∀ before after before' after', Recognized patterns source.toList before id.toList after →
      Recognized patterns source.toList before' id'.toList after' →
      before.length < before'.length → before.length + id.toList.length ≤ before'.length

/-- Whatever starts behind a hyphen is a whole token elsewhere. -/
def HyphensSeparate (patterns : IdPatterns) (text : List Char) : Prop :=
  ∀ before id after, BehindHyphen patterns text before id after →
    ∃ before' after', WholeToken patterns text before' id after'

/-- No identifier has the start of another one in it, behind a hyphen or behind a character that is
    no identifier character. -/
def NoneInside (patterns : IdPatterns) (text : List Char) : Prop :=
  ∀ before first c last after, Recognized patterns text before (first ++ c :: last) after →
    c = '-' ∨ isSuffixChar c = false → last ≠ [] →
    ¬ ∃ id after', Occurs patterns text (before ++ first ++ [c]) id after'

section Claim

variable {patterns : IdPatterns} {source : String}

/-- **Identifiers are whole tokens** exactly when each one that starts behind a hyphen is also a
    whole token, and none starts inside another one. -/
theorem wholeTokensOnly_iff : WholeTokensOnly source patterns ↔
    HyphensSeparate patterns source.toList ∧ NoneInside patterns source.toList := by
  constructor
  · intro h
    refine ⟨fun before id after hid => ?_, ?_⟩
    · have hmem : String.ofList id ∈ findIdentifiers source patterns := by
        rw [mem_findIdentifiers, String.toList_ofList]
        exact ⟨before, after, hid.recognized⟩
      have hwhole := (h.mem_iff _).mp hmem
      rwa [String.toList_ofList] at hwhole
    · rintro before first c last after hid hc hlast ⟨id', after', hid'⟩
      -- the inner one is recognized too, as `c` is a boundary
      have hinner : Recognized patterns source.toList (before ++ first ++ [c]) id' after' := by
        refine ⟨hid', ?_⟩
        rw [List.getLast?_concat]
        exact boundaryBefore_iff.mpr hc
      have hpos : 0 < last.length := List.length_pos_iff.mpr hlast
      have hle := h.disjoint (String.ofList (first ++ c :: last)) ?_ (String.ofList id') ?_ before
        after (before ++ first ++ [c]) after' ?_ ?_ (by simp)
      · simp only [String.toList_ofList, List.length_append, List.length_cons, List.length_nil] at hle
        omega
      all_goals simp only [mem_findIdentifiers, String.toList_ofList]
      · exact ⟨before, after, hid⟩
      · exact ⟨_, after', hinner⟩
      · exact hid
      · exact hinner
  · rintro ⟨hhyphens, hnone⟩
    constructor
    case mem_iff =>
      intro id
      rw [mem_findIdentifiers]
      constructor
      · rintro ⟨before, after, h⟩
        rcases h.cases with hwhole | hbehind
        · exact ⟨before, after, hwhole⟩
        · exact hhyphens before _ after hbehind
      · rintro ⟨before, after, h⟩
        exact ⟨before, after, h.recognized⟩
    case disjoint =>
      intro id _ id' _ before after before' after' h h' hlt
      by_contra hle
      have hgt : before'.length < before.length + id.toList.length := by omega
      -- the second one starts inside the first: cut the first in front of it
      obtain ⟨skipped, rfl⟩ : before <+: before' := by
        have hpre : before <+: source.toList := by
          rw [h.text_eq, List.append_assoc]
          exact List.prefix_append _ _
        have hpre' : before' <+: source.toList := by
          rw [h'.text_eq, List.append_assoc]
          exact List.prefix_append _ _
        exact List.prefix_of_prefix_length_le hpre hpre' hlt.le
      have hskipped : skipped ≠ [] := by
        rintro rfl
        simp at hlt
      have hrest : skipped ++ (id'.toList ++ after') = id.toList ++ after := by
        have htext := h.text_eq.symm.trans h'.text_eq
        rw [List.append_assoc, List.append_assoc, List.append_assoc] at htext
        exact (List.append_cancel_left htext).symm
      obtain ⟨last, hlast⟩ : skipped <+: id.toList := by
        have hpre : skipped <+: id.toList ++ after := ⟨_, hrest⟩
        refine List.prefix_of_prefix_length_le hpre (List.prefix_append _ _) ?_
        rw [List.length_append] at hgt
        omega
      have hne : last ≠ [] := by
        rintro rfl
        rw [List.append_nil] at hlast
        rw [List.length_append, hlast] at hgt
        omega
      obtain ⟨first, c, rfl⟩ : ∃ first c, skipped = first ++ [c] :=
        ⟨_, _, (List.dropLast_concat_getLast hskipped).symm⟩
      have hc : c = '-' ∨ isSuffixChar c = false := by
        have hboundary := h'.boundary
        rw [← List.append_assoc, List.getLast?_concat] at hboundary
        exact boundaryBefore_iff.mp hboundary
      rw [List.append_assoc, List.singleton_append] at hlast
      rw [← hlast] at h
      exact hnone before first c last after h hc hne
        ⟨id'.toList, after', by rw [List.append_assoc]; exact h'.toOccurs⟩

end Claim

/-- The end of a longer name is returned as an identifier. -/
theorem not_wholeTokensOnly_tail : ¬ WholeTokensOnly "PRE-ADR-1" IdPatterns.default := by
  intro h
  have hmem : "ADR-1" ∈ findIdentifiers "PRE-ADR-1" IdPatterns.default := by decide
  obtain ⟨before, after, hwhole⟩ := (h.mem_iff "ADR-1").mp hmem
  have htext : ['P', 'R', 'E', '-', 'A', 'D', 'R', '-', '1'] =
      before ++ ['A', 'D', 'R', '-', '1'] ++ after := hwhole.text_eq
  have hlength := congrArg List.length htext
  simp only [List.length_append, List.length_cons, List.length_nil] at hlength
  -- the text leaves four characters for what comes before and after
  rcases before with _ | ⟨c₀, _ | ⟨c₁, _ | ⟨c₂, _ | ⟨c₃, _ | ⟨c₄, before⟩⟩⟩⟩⟩
  · simp at htext
  · simp at htext
  · simp at htext
  · simp at htext
  · simp only [List.cons_append, List.nil_append, List.cons.injEq] at htext
    obtain ⟨-, -, -, rfl, -⟩ := htext
    exact absurd (hwhole.starts '-' rfl) (by decide)
  · simp only [List.length_cons] at hlength
    omega

end Rationale.Docs
