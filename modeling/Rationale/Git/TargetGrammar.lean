import Rationale.Git.Target
import Rationale.Splitting
import Rationale.Library.Fallible
import Rationale.Library.Delimited

namespace Rationale.Git

open Rationale.Text Rationale.Library

/-!
# The grammar of targets

`TargetSpec::from_str` of `crates/rationale-git/src/target.rs` against a grammar.

* `TargetText` — the grammar, over any way to write numbers;
* `fromStr_eq_ok` — the parser accepts it with `Signed` numbers: digits, after an optional plus sign;
* `printed`, `fromStr_printed` — the printed form of a target is read back;
* `fromStr_grammar` — the parser accepts the grammar with `Decimal` numbers exactly where no number
  has a plus sign.
-/

/-! ### Numbers -/

section Numbers

/-- A run of ASCII decimal digits and the number it denotes. -/
structure Decimal (text : List Char) (n : Nat) : Prop where
  ne_nil : text ≠ []
  digits : ∀ c ∈ text, c.isDigit = true
  value : Nat.ofDigitChars 10 text 0 = n

/-- A plus sign may come before the digits. -/
def Signed (text : List Char) (n : Nat) : Prop :=
  Decimal text n ∨ ∃ digits, text = '+' :: digits ∧ Decimal digits n

variable {text : List Char} {n : Nat} {c : Char}

theorem Decimal.notMem (h : Decimal text n) (hc : c.isDigit = false) : c ∉ text := by
  intro hmem
  rw [h.digits c hmem] at hc
  exact nomatch hc

theorem Signed.notMem (h : Signed text n) (hc : c.isDigit = false) (hplus : c ≠ '+') : c ∉ text := by
  rcases h with h | ⟨digits, rfl, h⟩
  · exact h.notMem hc
  · simpa using ⟨hplus, h.notMem hc⟩

/-- A signed number without a sign. -/
theorem Signed.decimal (h : Signed text n) (hplus : '+' ∉ text) : Decimal text n := by
  rcases h with h | ⟨digits, rfl, -⟩
  · exact h
  · exact absurd List.mem_cons_self hplus

/-- The part of `parseU64` after the sign. -/
theorem parseU64_digits {digits : List Char} :
    (if digits = [] ∨ digits.any (fun c => !c.isDigit) then none
      else if digits.foldl (fun n c => 10 * n + (c.toNat - '0'.toNat)) 0 < 2 ^ 64 then
        some (digits.foldl (fun n c => 10 * n + (c.toNat - '0'.toNat)) 0) else none) = some n ↔
      Decimal digits n ∧ n < 2 ^ 64 := by
  have hvalue : digits.foldl (fun n c => 10 * n + (c.toNat - '0'.toNat)) 0 =
      Nat.ofDigitChars 10 digits 0 := Nat.ofDigitChars_eq_foldl.symm
  rw [hvalue]
  by_cases hnone : digits = [] ∨ digits.any (fun c => !c.isDigit)
  · rw [if_pos hnone]
    refine ⟨fun h => (nomatch h), fun h => ?_⟩
    rcases hnone with hnone | hnone
    · exact absurd hnone h.1.ne_nil
    · obtain ⟨c, hc, hdigit⟩ := List.any_eq_true.mp hnone
      rw [h.1.digits c hc] at hdigit
      exact nomatch hdigit
  · rw [if_neg hnone, Option.ite_none_right_eq_some, Option.some.injEq]
    obtain ⟨hne, hall⟩ := not_or.mp hnone
    constructor
    · rintro ⟨hlt, rfl⟩
      refine ⟨⟨hne, fun c hc => ?_, rfl⟩, hlt⟩
      by_contra hdigit
      exact hall (List.any_eq_true.mpr ⟨c, hc, by simpa using hdigit⟩)
    · rintro ⟨h, hlt⟩
      rw [h.value]
      exact ⟨hlt, rfl⟩

theorem parseU64_eq_some : parseU64 text = some n ↔ Signed text n ∧ n < 2 ^ 64 := by
  unfold parseU64
  dsimp only
  split
  · next digits =>
    rw [parseU64_digits]
    refine and_congr_left (fun _ => ⟨fun h => Or.inr ⟨digits, rfl, h⟩, ?_⟩)
    rintro (h | ⟨digits', heq, h⟩)
    · exact absurd List.mem_cons_self (h.notMem (by decide))
    · rwa [(List.cons.inj heq).2]
  · next hplus =>
    rw [parseU64_digits]
    refine and_congr_left (fun _ => ⟨Or.inl, ?_⟩)
    rintro (h | ⟨digits, rfl, -⟩)
    · exact h
    · exact absurd rfl (hplus digits)

theorem parseLine_eq_ok : parseLine text = .ok n ↔ Signed text n ∧ 1 ≤ n ∧ n < 2 ^ 64 := by
  unfold parseLine
  split
  · next hnone =>
    refine ⟨fun h => (nomatch h), fun ⟨h, _, hlt⟩ => ?_⟩
    rw [parseU64_eq_some.mpr ⟨h, hlt⟩] at hnone
    exact nomatch hnone
  · next hzero =>
    refine ⟨fun h => (nomatch h), fun ⟨h, hpos, hlt⟩ => ?_⟩
    rw [parseU64_eq_some.mpr ⟨h, hlt⟩] at hzero
    obtain rfl := Option.some.inj hzero
    exact absurd hpos (by decide)
  · next line hne hline =>
    constructor
    · intro h
      obtain rfl := Except.ok.inj h
      obtain ⟨hsigned, hlt⟩ := parseU64_eq_some.mp hline
      exact ⟨hsigned, Nat.pos_of_ne_zero (fun hzero => hne hzero), hlt⟩
    · rintro ⟨h, -, hlt⟩
      rw [parseU64_eq_some.mpr ⟨h, hlt⟩] at hline
      rw [Option.some.inj hline]

end Numbers

/-! ### The grammar -/

section Grammar

variable (Numeral : List Char → Nat → Prop)

/-- `start[-end]`. -/
inductive RangeText : List Char → Nat → Nat → Prop where
  | one {text : List Char} {n : Nat} (h : Numeral text n) : RangeText text n n
  | two {first last : List Char} {startLine endLine : Nat} (hfirst : Numeral first startLine)
      (hlast : Numeral last endLine) : RangeText (first ++ '-' :: last) startLine endLine

/-- `start[-end][@revision]`. -/
inductive LocationText : List Char → Nat → Nat → Option String → Prop where
  | working {range : List Char} {startLine endLine : Nat}
      (h : RangeText Numeral range startLine endLine) : LocationText range startLine endLine none
  | historical {range : List Char} {startLine endLine : Nat} {revision : String}
      (h : RangeText Numeral range startLine endLine) (hrevision : revision ≠ "") :
      LocationText (range ++ '@' :: revision.toList) startLine endLine (some revision)

/-- A target: `commit:revision`, or `path:location` with its last colon. -/
inductive TargetText : List Char → TargetSpec → Prop where
  | commit {revision : String} (hne : revision ≠ "")
      (hspace : ∀ c ∈ revision.toList, isWhitespace c = false) :
      TargetText ("commit:".toList ++ revision.toList) (.commit revision)
  | lines {path : String} {location : List Char} {startLine endLine : Nat} {revision : Option String}
      (hcommit : ¬ "commit:".toList <+: path.toList ++ ':' :: location) (hpath : path ≠ "")
      (hcolon : ':' ∉ location) (h : LocationText Numeral location startLine endLine revision)
      (hpos : 1 ≤ startLine) (hle : startLine ≤ endLine) (hfits : endLine < 2 ^ 64)
      (hlength : endLine - startLine + 1 ≤ maxTargetLines) :
      TargetText (path.toList ++ ':' :: location) (.lines path startLine endLine revision)

end Grammar

/-! ### The parser -/

section Parser

variable {range location : List Char} {startLine endLine : Nat} {revision : Option String}

theorem RangeText.notMem (h : RangeText Signed range startLine endLine) : '@' ∉ range := by
  cases h with
  | one h => exact h.notMem (by decide) (by decide)
  | two hfirst hlast =>
    simp only [List.mem_append, List.mem_cons, not_or]
    exact ⟨hfirst.notMem (by decide) (by decide), by decide, hlast.notMem (by decide) (by decide)⟩

theorem parseRange_eq_ok : parseRange range = .ok (startLine, endLine) ↔
    RangeText Signed range startLine endLine ∧ (1 ≤ startLine ∧ startLine < 2 ^ 64) ∧
      1 ≤ endLine ∧ endLine < 2 ^ 64 := by
  unfold parseRange
  split
  · next first last hsplit =>
    obtain ⟨rfl, hfirst⟩ := splitOnce_eq_some.mp hsplit
    simp only [bind_eq_ok, parseLine_eq_ok]
    constructor
    · rintro ⟨_, ⟨hstart, hpos, hlt⟩, _, ⟨hend, hpos', hlt'⟩, h⟩
      obtain ⟨rfl, rfl⟩ := Prod.mk.inj (Except.ok.inj h)
      exact ⟨.two hstart hend, ⟨hpos, hlt⟩, hpos', hlt'⟩
    · rintro ⟨h, ⟨hpos, hlt⟩, hpos', hlt'⟩
      obtain ⟨hstart, hend⟩ : Signed first startLine ∧ Signed last endLine := by
        generalize htext : first ++ '-' :: last = text at h
        cases h with
        | one h =>
          rw [← htext] at h
          exact absurd (by simp) (h.notMem (c := '-') (by decide) (by decide))
        | two hstart hend =>
          have hdash : '-' ∉ _ := hstart.notMem (by decide) (by decide)
          obtain ⟨rfl, rfl⟩ := (append_delimiter_inj hfirst hdash).mp htext
          exact ⟨hstart, hend⟩
      exact ⟨_, ⟨hstart, hpos, hlt⟩, _, ⟨hend, hpos', hlt'⟩, rfl⟩
  · next hsplit =>
    rw [splitOnce_eq_none] at hsplit
    simp only [bind_eq_ok, parseLine_eq_ok]
    constructor
    · rintro ⟨_, ⟨h, hpos, hlt⟩, heq⟩
      obtain ⟨rfl, rfl⟩ := Prod.mk.inj (Except.ok.inj heq)
      exact ⟨.one h, ⟨hpos, hlt⟩, hpos, hlt⟩
    · rintro ⟨h, ⟨hpos, hlt⟩, -, -⟩
      cases h with
      | one h => exact ⟨_, ⟨h, hpos, hlt⟩, rfl⟩
      | two hfirst hlast => exact absurd (by simp) hsplit

theorem parseRevision_eq_ok : parseRevision location = .ok (range, revision) ↔
    ('@' ∉ location ∧ range = location ∧ revision = none) ∨
      ∃ name : String, name ≠ "" ∧ location = range ++ '@' :: name.toList ∧ '@' ∉ range ∧
        revision = some name := by
  unfold parseRevision
  split
  · next first hsplit =>
    obtain ⟨rfl, hfirst⟩ := splitOnce_eq_some.mp hsplit
    refine ⟨fun h => (nomatch h), ?_⟩
    rintro (⟨hnone, -⟩ | ⟨name, hname, heq, hrange, -⟩)
    · exact absurd (by simp) hnone
    · obtain ⟨-, hnil⟩ := (append_delimiter_inj hfirst hrange).mp heq
      exact absurd (String.toList_eq_nil_iff.mp hnil.symm) hname
  · next first last hne hsplit =>
    obtain ⟨rfl, hfirst⟩ := splitOnce_eq_some.mp hsplit
    constructor
    · intro h
      obtain ⟨rfl, rfl⟩ := Prod.mk.inj (Except.ok.inj h)
      refine Or.inr ⟨String.ofList last, ?_, by simp, hfirst, rfl⟩
      intro hnil
      have hlast := congrArg String.toList hnil
      rw [String.toList_ofList] at hlast
      exact hne hlast
    · rintro (⟨hnone, -⟩ | ⟨name, hname, heq, hrange, rfl⟩)
      · exact absurd (by simp) hnone
      · obtain ⟨rfl, rfl⟩ := (append_delimiter_inj hfirst hrange).mp heq
        rw [String.ofList_toList]
  · next hsplit =>
    rw [splitOnce_eq_none] at hsplit
    constructor
    · intro h
      obtain ⟨rfl, rfl⟩ := Prod.mk.inj (Except.ok.inj h)
      exact Or.inl ⟨hsplit, rfl, rfl⟩
    · rintro (⟨-, rfl, rfl⟩ | ⟨name, -, rfl, -⟩)
      · rfl
      · exact absurd (by simp) hsplit

/-- The location of a line target, as the parser takes it apart. -/
theorem locationText_iff : LocationText Signed location startLine endLine revision ↔
    ∃ range, parseRevision location = .ok (range, revision) ∧
      RangeText Signed range startLine endLine := by
  simp only [parseRevision_eq_ok]
  constructor
  · intro h
    cases h with
    | working h => exact ⟨location, Or.inl ⟨h.notMem, rfl, rfl⟩, h⟩
    | historical h hname => exact ⟨_, Or.inr ⟨_, hname, rfl, h.notMem, rfl⟩, h⟩
  · rintro ⟨range, ⟨-, rfl, rfl⟩ | ⟨name, hname, rfl, -, rfl⟩, h⟩
    · exact .working h
    · exact .historical h hname

/-- A text that starts with `commit:` is a commit target or none. -/
theorem targetText_commit_iff {Numeral : List Char → Nat → Prop} {text rest : List Char}
    {target : TargetSpec} (htext : text = "commit:".toList ++ rest) :
    TargetText Numeral text target ↔
      rest ≠ [] ∧ (∀ c ∈ rest, isWhitespace c = false) ∧ target = .commit (String.ofList rest) := by
  subst htext
  constructor
  · intro h
    generalize htext : "commit:".toList ++ rest = text at h
    cases h with
    | commit hne hspace =>
      rw [List.append_cancel_left htext]
      exact ⟨fun hnil => hne (String.toList_eq_nil_iff.mp hnil), hspace,
        by rw [String.ofList_toList]⟩
    | lines hcommit =>
      rw [← htext] at hcommit
      exact absurd (List.prefix_append _ _) hcommit
  · rintro ⟨hne, hspace, rfl⟩
    have h := @TargetText.commit Numeral (String.ofList rest)
    rw [String.toList_ofList] at h
    refine h (fun hnil => hne ?_) hspace
    rw [← String.toList_ofList (l := rest), hnil]
    rfl

/-- Another text is a line target or none: it is cut at its last colon. -/
theorem targetText_lines_iff {Numeral : List Char → Nat → Prop} {text path : List Char}
    {target : TargetSpec} (htext : text = path ++ ':' :: location)
    (hcommit : ¬ "commit:".toList <+: text) (hcolon : ':' ∉ location) :
    TargetText Numeral text target ↔
      path ≠ [] ∧ ∃ startLine endLine revision,
        LocationText Numeral location startLine endLine revision ∧ 1 ≤ startLine ∧
        startLine ≤ endLine ∧ endLine < 2 ^ 64 ∧ endLine - startLine + 1 ≤ maxTargetLines ∧
        target = .lines (String.ofList path) startLine endLine revision := by
  have hcut : rsplitOnce ':' text = some (path, location) := rsplitOnce_eq_some.mpr ⟨htext, hcolon⟩
  constructor
  · intro h
    cases h with
    | commit => exact absurd (List.prefix_append _ _) hcommit
    | @lines path' location' startLine endLine revision _ hpath hcolon' h hpos hle hfits hlength =>
      rw [rsplitOnce_eq_some.mpr ⟨rfl, hcolon'⟩] at hcut
      obtain ⟨rfl, rfl⟩ := Prod.mk.inj (Option.some.inj hcut)
      exact ⟨fun hnil => hpath (String.toList_eq_nil_iff.mp hnil), startLine, endLine, revision, h,
        hpos, hle, hfits, hlength, by rw [String.ofList_toList]⟩
  · rintro ⟨hpath, startLine, endLine, revision, h, hpos, hle, hfits, hlength, rfl⟩
    have hpathText : text = (String.ofList path).toList ++ ':' :: location := by
      rw [String.toList_ofList, htext]
    rw [hpathText] at hcommit ⊢
    refine .lines hcommit (fun hnil => hpath ?_) hcolon h hpos hle hfits hlength
    rw [← String.toList_ofList (l := path), hnil]
    rfl

/-- The revisions that are not rejected. -/
theorem revision_accepted_iff {revision : List Char} :
    ¬ (revision = [] ∨ revision.any isWhitespace = true) ↔
      revision ≠ [] ∧ ∀ c ∈ revision, isWhitespace c = false := by
  simp [not_or]

/-- **The parser** accepts the grammar with signed numbers. -/
theorem fromStr_eq_ok {input : String} {target : TargetSpec} :
    TargetSpec.fromStr input = .ok target ↔
      input.utf8ByteSize ≤ maxTargetBytes ∧ TargetText Signed input.toList target := by
  unfold TargetSpec.fromStr
  by_cases hsize : input.utf8ByteSize > maxTargetBytes
  · rw [if_pos hsize]
    exact ⟨fun h => (nomatch h), fun h => absurd h.1 (by omega)⟩
  rw [if_neg hsize, and_iff_right (by omega)]
  split
  · -- `commit:`, and a revision
    next revision hcommit =>
    rw [stripPrefix_eq_some] at hcommit
    rw [targetText_commit_iff hcommit, ← and_assoc, ← revision_accepted_iff]
    by_cases hrevision : revision = [] ∨ revision.any isWhitespace
    · rw [if_pos hrevision]
      exact ⟨fun h => (nomatch h), fun h => absurd hrevision h.1⟩
    · rw [if_neg hrevision, Except.ok.injEq, and_iff_right hrevision, eq_comm]
  · next hcommit =>
    rw [stripPrefix_eq_none] at hcommit
    split
    · -- no colon: neither form of the grammar has such a text
      next hcolon =>
      rw [rsplitOnce_eq_none] at hcolon
      refine ⟨fun h => (nomatch h), fun h => ?_⟩
      generalize htext : input.toList = text at h hcommit hcolon
      cases h with
      | commit => exact absurd (List.prefix_append _ _) hcommit
      | lines => exact absurd (by simp) hcolon
    · -- the last colon ends the path
      next path location hsplit =>
      obtain ⟨htext, hcolon⟩ := rsplitOnce_eq_some.mp hsplit
      rw [targetText_lines_iff htext hcommit hcolon]
      dsimp only
      by_cases hpath : path = []
      · rw [if_pos hpath]
        exact ⟨fun h => (nomatch h), fun h => absurd hpath h.1⟩
      rw [if_neg hpath, and_iff_right hpath]
      simp only [locationText_iff]
      constructor
      · intro h
        obtain ⟨⟨range, revision⟩, hrevision, h⟩ := bind_eq_ok.mp h
        obtain ⟨⟨startLine, endLine⟩, hrange, h⟩ := bind_eq_ok.mp h
        obtain ⟨hrange, ⟨hpos, -⟩, -, hfits⟩ := parseRange_eq_ok.mp hrange
        dsimp only at h
        split at h
        · exact nomatch h
        split at h
        · exact nomatch h
        obtain rfl := Except.ok.inj h
        exact ⟨startLine, endLine, revision, ⟨range, hrevision, hrange⟩, hpos, by omega, hfits,
          by omega, rfl⟩
      · rintro ⟨startLine, endLine, revision, ⟨range, hrevision, hrange⟩, hpos, hle, hfits, hlength,
          rfl⟩
        have hends := parseRange_eq_ok.mpr ⟨hrange, ⟨hpos, by omega⟩, by omega, hfits⟩
        refine bind_eq_ok.mpr ⟨_, hrevision, bind_eq_ok.mpr ⟨_, hends, ?_⟩⟩
        dsimp only
        rw [if_neg (by omega), if_neg (by omega)]
        rfl

end Parser

/-! ### Plus signs -/

/-- The grammar of the documentation: decimal numbers, in a text of bounded size. -/
structure InGrammar (input : String) (target : TargetSpec) : Prop where
  size : input.utf8ByteSize ≤ maxTargetBytes
  text : TargetText Decimal input.toList target

/-- A line target, well formed otherwise, with a plus sign in front of a number. -/
structure PlusSigned (input : String) : Prop where
  size : input.utf8ByteSize ≤ maxTargetBytes
  text : ∃ target, TargetText Signed input.toList target
  notCommit : ¬ "commit:".toList <+: input.toList
  plus : ∃ path location, input.toList = path ++ ':' :: location ∧ ':' ∉ location ∧
    '+' ∈ location.takeWhile (· ≠ '@')

section Plus

variable {range location text : List Char} {startLine endLine : Nat} {revision : Option String}
  {target : TargetSpec}

theorem RangeText.signed (h : RangeText Decimal range startLine endLine) :
    RangeText Signed range startLine endLine := by
  cases h with
  | one h => exact .one (Or.inl h)
  | two hfirst hlast => exact .two (Or.inl hfirst) (Or.inl hlast)

theorem LocationText.signed (h : LocationText Decimal location startLine endLine revision) :
    LocationText Signed location startLine endLine revision := by
  cases h with
  | working h => exact .working h.signed
  | historical h hrevision => exact .historical h.signed hrevision

theorem TargetText.signed (h : TargetText Decimal text target) : TargetText Signed text target := by
  cases h with
  | commit hne hspace => exact .commit hne hspace
  | lines hcommit hpath hcolon h hpos hle hfits hlength =>
    exact .lines hcommit hpath hcolon h.signed hpos hle hfits hlength

theorem RangeText.decimal_iff (h : RangeText Signed range startLine endLine) :
    RangeText Decimal range startLine endLine ↔ '+' ∉ range := by
  constructor
  · intro hdecimal
    cases hdecimal with
    | one hone => exact hone.notMem (by decide)
    | two hfirst hlast =>
      simp only [List.mem_append, List.mem_cons, not_or]
      exact ⟨hfirst.notMem (by decide), by decide, hlast.notMem (by decide)⟩
  · intro hplus
    cases h with
    | one h => exact .one (h.decimal hplus)
    | two hfirst hlast =>
      simp only [List.mem_append, List.mem_cons, not_or] at hplus
      exact .two (hfirst.decimal hplus.1) (hlast.decimal hplus.2.2)

/-- A location has decimal numbers when no plus sign comes before its revision. -/
theorem LocationText.decimal_iff (h : LocationText Signed location startLine endLine revision) :
    LocationText Decimal location startLine endLine revision ↔
      '+' ∉ location.takeWhile (· ≠ '@') := by
  cases h with
  | working h =>
    have hall : location.takeWhile (· ≠ '@') = location := by
      rw [List.takeWhile_eq_self_iff]
      intro c hc
      rw [decide_eq_true_eq]
      rintro rfl
      exact h.notMem hc
    rw [hall, ← h.decimal_iff]
    constructor
    · intro hdecimal
      generalize hnone : (none : Option String) = revision at hdecimal
      cases hdecimal with
      | working h => exact h
      | historical => exact nomatch hnone
    · exact .working
  | @historical range _ _ name h hname =>
    rw [takeWhile_ne_append h.notMem, ← h.decimal_iff]
    constructor
    · intro hdecimal
      generalize htext : range ++ '@' :: name.toList = text at hdecimal
      generalize hsome : some name = revision at hdecimal
      cases hdecimal with
      | working => exact nomatch hsome
      | historical hrange =>
        obtain ⟨rfl, -⟩ := (append_delimiter_inj h.notMem hrange.signed.notMem).mp htext
        exact hrange
    · exact fun hrange => .historical hrange hname

end Plus

/-! ### Printed targets -/

/-- `path:start-end[@revision]`. -/
def printed (path : String) (startLine endLine : Nat) (revision : Option String) : String :=
  path ++ ":" ++ toString startLine ++ "-" ++ toString endLine ++
    match revision with
    | none => ""
    | some revision => "@" ++ revision

/-- A line target that can be printed: the bounds of its range, and a text that the parser takes for
    a line target with this path. -/
structure Printable (path : String) (startLine endLine : Nat) (revision : Option String) : Prop where
  path_ne : path ≠ ""
  pos : 1 ≤ startLine
  le : startLine ≤ endLine
  fits : endLine < 2 ^ 64
  length : endLine - startLine + 1 ≤ maxTargetLines
  revision_ne : ∀ name, revision = some name → name ≠ "" ∧ ':' ∉ name.toList
  size : (printed path startLine endLine revision).utf8ByteSize ≤ maxTargetBytes
  notCommit : ¬ "commit:".toList <+: (printed path startLine endLine revision).toList

section Printed

variable {path : String} {startLine endLine : Nat} {revision : Option String}

theorem decimal_toDigits (n : Nat) : Decimal (Nat.toDigits 10 n) n where
  ne_nil := Nat.toDigits_ne_nil
  digits _ := Nat.isDigit_of_mem_toDigits (by decide) (by decide)
  value := Nat.ofDigitChars_ten_toDigits

/-- The location of a printed target. -/
theorem printed_toList : ∃ location, (printed path startLine endLine revision).toList =
      path.toList ++ ':' :: location ∧
    location = Nat.toDigits 10 startLine ++ '-' :: Nat.toDigits 10 endLine ++
      match revision with
      | none => []
      | some name => '@' :: name.toList := by
  refine ⟨_, ?_, rfl⟩
  unfold printed
  cases revision with
  | none => simp [Nat.toList_repr]
  | some name => simp [Nat.toList_repr]

/-- **Printed targets** are read back. -/
theorem fromStr_printed (h : Printable path startLine endLine revision) :
    TargetSpec.fromStr (printed path startLine endLine revision) =
      .ok (.lines path startLine endLine revision) := by
  obtain ⟨location, htext, hlocation⟩ := @printed_toList path startLine endLine revision
  have hrange : RangeText Signed (Nat.toDigits 10 startLine ++ '-' :: Nat.toDigits 10 endLine)
      startLine endLine :=
    .two (Or.inl (decimal_toDigits startLine)) (Or.inl (decimal_toDigits endLine))
  have hcolon : ':' ∉ Nat.toDigits 10 startLine ++ '-' :: Nat.toDigits 10 endLine := by
    simp only [List.mem_append, List.mem_cons, not_or]
    exact ⟨(decimal_toDigits startLine).notMem (by decide), by decide,
      (decimal_toDigits endLine).notMem (by decide)⟩
  refine fromStr_eq_ok.mpr ⟨h.size, ?_⟩
  have hcommit := h.notCommit
  rw [htext] at hcommit ⊢
  refine .lines hcommit h.path_ne ?_ ?_ h.pos h.le h.fits h.length
  · cases revision with
    | none => rwa [hlocation, List.append_nil]
    | some name =>
      obtain ⟨-, hname⟩ := h.revision_ne name rfl
      rw [hlocation, List.mem_append, List.mem_cons]
      rintro (hmem | hmem | hmem)
      · exact hcolon hmem
      · exact absurd hmem (by decide)
      · exact hname hmem
  · cases revision with
    | none =>
      rw [hlocation, List.append_nil]
      exact .working hrange
    | some name =>
      rw [hlocation]
      exact .historical hrange (h.revision_ne name rfl).1

end Printed

/-! ### The grammar of the parser -/

/-- **Targets.**  The parser accepts the grammar exactly where no number has a plus sign; accepted
    ranges are within the bounds; printed targets are read back. -/
theorem fromStr_grammar (input : String) :
    ((∀ target, TargetSpec.fromStr input = .ok target ↔ InGrammar input target) ↔
      ¬ PlusSigned input) ∧
    (∀ path startLine endLine revision,
      TargetSpec.fromStr input = .ok (.lines path startLine endLine revision) →
        1 ≤ startLine ∧ startLine ≤ endLine ∧ endLine < 2 ^ 64 ∧
          endLine - startLine + 1 ≤ maxTargetLines) ∧
    ∀ path startLine endLine revision, Printable path startLine endLine revision →
      TargetSpec.fromStr (printed path startLine endLine revision) =
        .ok (.lines path startLine endLine revision) := by
  refine ⟨⟨fun h hplus => ?_, fun hplus target => ?_⟩, ?_, fun _ _ _ _ => fromStr_printed⟩
  · -- a text with a plus sign is accepted, and is in no form of the grammar
    obtain ⟨target, htarget⟩ := hplus.text
    obtain ⟨path, location, htext, hcolon, hmem⟩ := hplus.plus
    have hdecimal := ((h target).mp (fromStr_eq_ok.mpr ⟨hplus.size, htarget⟩)).text
    obtain ⟨-, _, _, _, hlocation, -⟩ := (targetText_lines_iff htext hplus.notCommit hcolon).mp hdecimal
    exact hlocation.signed.decimal_iff.mp hlocation hmem
  · -- without one, signed numbers are decimal numbers
    rw [fromStr_eq_ok]
    constructor
    · rintro ⟨hsize, htarget⟩
      refine ⟨hsize, ?_⟩
      have hsigned := htarget
      generalize htext : input.toList = text at htarget ⊢
      cases htarget with
      | commit hne hspace => exact .commit hne hspace
      | lines hcommit hpath hcolon h hpos hle hfits hlength =>
        refine .lines hcommit hpath hcolon (h.decimal_iff.mpr (fun hmem => hplus ?_)) hpos hle hfits
          hlength
        rw [← htext] at hcommit
        exact ⟨hsize, ⟨_, hsigned⟩, hcommit, _, _, htext, hcolon, hmem⟩
    · rintro ⟨hsize, htarget⟩
      exact ⟨hsize, htarget.signed⟩
  · intro path startLine endLine revision h
    obtain ⟨-, htarget⟩ := fromStr_eq_ok.mp h
    generalize input.toList = text at htarget
    cases htarget with
    | lines hcommit hpath hcolon h hpos hle hfits hlength => exact ⟨hpos, hle, hfits, hlength⟩

/-- A plus sign is accepted. -/
theorem fromStr_plus_not_inGrammar :
    TargetSpec.fromStr "src/lib.rs:+7" = .ok (.lines "src/lib.rs" 7 7 none) ∧
      ¬ InGrammar "src/lib.rs:+7" (.lines "src/lib.rs" 7 7 none) := by
  refine ⟨by decide, fun h => ?_⟩
  have htext : "src/lib.rs:+7".toList = "src/lib.rs".toList ++ ':' :: ['+', '7'] := by decide
  obtain ⟨-, _, _, _, hlocation, -⟩ :=
    (targetText_lines_iff htext (by decide) (by decide)).mp h.text
  exact hlocation.signed.decimal_iff.mp hlocation (by decide)

end Rationale.Git
