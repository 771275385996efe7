import Mathlib.Algebra.GroupWithZero.Nat
import Rationale.Docs.Text
import Rationale.Splitting

namespace Rationale.Docs

open Rationale.Text

/-!
# Front matter

`front_matter` of `crates/rationale-docs/src/lib.rs` as a statement about the text, and its byte
offsets.

* `SplitsAs` — the text is a delimiter line, metadata, a delimiter line and a body;
* `frontMatter_ok_some_iff`, `frontMatter_error_iff`, `frontMatter_ok_none_iff` — the three results;
* `frontMatter_wrap` — what is wrapped in delimiter lines is found again;
* `sliceFrontMatter` — the same function by byte offsets, as the source slices, and
  `sliceFrontMatter_eq`: every offset lies between two characters.
-/

/-! ### Delimiter lines -/

def FrontMatterKind.delimiter : FrontMatterKind → List Char
  | .yaml => ['-', '-', '-']
  | .toml => ['+', '+', '+']

/-- The line without its line end, and without carriage returns before it. -/
def stripLine (line : List Char) : List Char := trimEndMatches (['\r', '\n'].contains ·) line

/-- A line up to and with its line feed. -/
def TerminatedLine (line : List Char) : Prop :=
  ∃ content, line = content ++ ['\n'] ∧ '\n' ∉ content

/-- A whole line before the rest of a text: only the last one can be without a line feed. -/
def LineBefore (line rest : List Char) : Prop :=
  TerminatedLine line ∨ '\n' ∉ line ∧ rest = []

/-- No line of the text is the delimiter. -/
def DelimiterFree (kind : FrontMatterKind) (text : List Char) : Prop :=
  ∀ line ∈ splitInclusive text, stripLine line ≠ kind.delimiter

/-- The text opens with a delimiter line. -/
def Opens (source : List Char) (kind : FrontMatterKind) (rest : List Char) : Prop :=
  ∃ first, source = first ++ rest ∧ TerminatedLine first ∧ stripLine first = kind.delimiter

/-- The text is `L₁ m L₂ b`: a delimiter line, metadata without one, a delimiter line, a body. -/
structure SplitsAs (source : List Char) (kind : FrontMatterKind) (metadata body : List Char) :
    Prop where
  lines : ∃ last, Opens source kind (metadata ++ last ++ body) ∧ LineBefore last body ∧
    stripLine last = kind.delimiter
  metadata_lines : EndsLine metadata
  metadata_free : DelimiterFree kind metadata

/-- The diagnostic of front matter that does not end. -/
def unclosedFrontMatter : ParseFailure :=
  ("invalid_front_matter", "front matter has no closing delimiter")

section Lines

variable {kind kind' : FrontMatterKind} {line content source rest metadata body : List Char}

theorem FrontMatterKind.delimiter_inj (h : kind.delimiter = kind'.delimiter) : kind = kind' := by
  cases kind <;> cases kind' <;> first | rfl | exact absurd h (by decide)

theorem FrontMatterKind.delimiter_ne_nil : kind.delimiter ≠ [] := by
  cases kind <;> exact List.cons_ne_nil _ _

theorem stripLine_newline (h : '\n' ∉ content) :
    stripLine (content ++ ['\n']) = trimEndMatches (· = '\r') content := by
  -- behind the line feed the two sets of characters are the same
  have hsame : ∀ l : List Char, '\n' ∉ l →
      l.dropWhile (['\r', '\n'].contains ·) = l.dropWhile (· = '\r') := by
    intro l hl
    induction l with
    | nil => rfl
    | cons c l ih =>
      obtain ⟨hc, hl⟩ := not_or.mp (mt List.mem_cons.mpr hl)
      have hcontains : ['\r', '\n'].contains c = decide (c = '\r') := by
        simp [Ne.symm hc]
      rw [List.dropWhile_cons, List.dropWhile_cons, hcontains, ih hl]
  have hreverse : '\n' ∉ content.reverse := by simpa using h
  simp [stripLine, trimEndMatches, ← hsame _ hreverse]

theorem Opens.rest_eq {rest' : List Char} (h : Opens source kind rest)
    (h' : Opens source kind' rest') : kind = kind' ∧ rest = rest' := by
  obtain ⟨first, rfl, ⟨content, rfl, hcontent⟩, hkind⟩ := h
  obtain ⟨first', hsource, ⟨content', rfl, hcontent'⟩, hkind'⟩ := h'
  -- both first lines end at the first line feed
  have hsplit := congrArg (splitOnce '\n') hsource
  rw [List.append_assoc, List.append_assoc, List.singleton_append, List.singleton_append,
    splitOnce_append hcontent, splitOnce_append hcontent'] at hsplit
  obtain ⟨rfl, rfl⟩ := Prod.mk.inj (Option.some.inj hsplit)
  exact ⟨FrontMatterKind.delimiter_inj (hkind.symm.trans hkind'), rfl⟩

end Lines

/-! ### The closing line -/

section Closing

variable {delimiter text metadata body : List Char} {lines : List (List Char)}

theorem splitAtDelimiter_eq_none :
    splitAtDelimiter delimiter lines = none ↔ ∀ line ∈ lines, stripLine line ≠ delimiter := by
  induction lines with
  | nil => simp [splitAtDelimiter]
  | cons line lines ih =>
    by_cases hline : stripLine line = delimiter
    · have hif : splitAtDelimiter delimiter (line :: lines) = some ([], lines.flatten) := if_pos hline
      simp [hif, hline]
    · have hif : splitAtDelimiter delimiter (line :: lines) =
          (splitAtDelimiter delimiter lines).map fun split => (line ++ split.1, split.2) :=
        if_neg hline
      rw [hif, Option.map_eq_none_iff, ih]
      simp [hline]

theorem splitAtDelimiter_eq_some :
    splitAtDelimiter delimiter lines = some (metadata, body) ↔
      ∃ before line after, lines = before ++ line :: after ∧
        (∀ l ∈ before, stripLine l ≠ delimiter) ∧ stripLine line = delimiter ∧
          metadata = before.flatten ∧ body = after.flatten := by
  induction lines generalizing metadata with
  | nil => simp [splitAtDelimiter]
  | cons line lines ih =>
    by_cases hline : stripLine line = delimiter
    · have hif : splitAtDelimiter delimiter (line :: lines) = some ([], lines.flatten) := if_pos hline
      rw [hif]
      constructor
      · intro h
        obtain ⟨rfl, rfl⟩ := Prod.mk.inj (Option.some.inj h)
        exact ⟨[], line, lines, rfl, nofun, hline, rfl, rfl⟩
      · rintro ⟨before, line', after, hlines, hbefore, -, rfl, rfl⟩
        cases before with
        | nil =>
          obtain ⟨-, rfl⟩ := List.cons.inj hlines
          rfl
        | cons first before =>
          obtain ⟨rfl, -⟩ := List.cons.inj hlines
          exact absurd hline (hbefore line List.mem_cons_self)
    · have hif : splitAtDelimiter delimiter (line :: lines) =
          (splitAtDelimiter delimiter lines).map fun split => (line ++ split.1, split.2) :=
        if_neg hline
      rw [hif, Option.map_eq_some_iff]
      constructor
      · rintro ⟨⟨inner, rest⟩, hsplit, heq⟩
        obtain ⟨rfl, rfl⟩ := Prod.mk.inj heq
        obtain ⟨before, line', after, rfl, hbefore, hline', rfl, rfl⟩ := ih.mp hsplit
        refine ⟨line :: before, line', after, rfl, ?_, hline', rfl, rfl⟩
        exact List.forall_mem_cons.mpr ⟨hline, hbefore⟩
      · rintro ⟨before, line', after, hlines, hbefore, hline', rfl, rfl⟩
        cases before with
        | nil =>
          obtain ⟨rfl, -⟩ := List.cons.inj hlines
          exact absurd hline' hline
        | cons first before =>
          obtain ⟨rfl, rfl⟩ := List.cons.inj hlines
          obtain ⟨-, hbefore⟩ := List.forall_mem_cons.mp hbefore
          exact ⟨_, ih.mpr ⟨before, line', after, rfl, hbefore, hline', rfl, rfl⟩, rfl⟩

/-- The lines before and after one line of a text. -/
theorem splitInclusive_eq_append {before after : List (List Char)} {line : List Char}
    (h : splitInclusive text = before ++ line :: after) :
    EndsLine before.flatten ∧ splitInclusive before.flatten = before ∧
      LineBefore line after.flatten := by
  induction before generalizing text with
  | nil =>
    refine ⟨Or.inl rfl, rfl, ?_⟩
    rcases splitInclusive_cases text with rfl | ⟨hnone, -, hsplit⟩ | ⟨first, rest, -, hfirst, hsplit⟩
    · exact nomatch h
    · rw [hsplit] at h
      obtain ⟨rfl, rfl⟩ := List.cons.inj h
      exact Or.inr ⟨hnone, rfl⟩
    · rw [hsplit] at h
      obtain ⟨rfl, -⟩ := List.cons.inj h
      exact Or.inl ⟨first, rfl, hfirst⟩
  | cons first before ih =>
    rcases splitInclusive_cases text with rfl | ⟨-, -, hsplit⟩ | ⟨content, rest, -, hcontent, hsplit⟩
    · exact nomatch h
    · -- a text without a line feed is a single line
      rw [hsplit] at h
      obtain ⟨-, hnil⟩ := List.cons.inj h
      exact absurd hnil.symm (by simp)
    · rw [hsplit] at h
      obtain ⟨rfl, hrest⟩ := List.cons.inj h
      obtain ⟨hends, hbefore, hline⟩ := ih hrest
      refine ⟨Or.inr ?_, ?_, hline⟩
      · rw [List.flatten_cons]
        rcases hends with hnil | hlast
        · rw [hnil]
          simp
        · rw [List.getLast?_append, hlast]
          rfl
      · rw [List.flatten_cons, List.append_assoc, List.singleton_append,
          splitInclusive_line hcontent, hbefore]

/-- A line inside a text, as a cut of the text. -/
theorem splitInclusive_lineBefore {line : List Char} (hmetadata : EndsLine metadata)
    (hline : LineBefore line body) (hne : line ≠ []) :
    splitInclusive (metadata ++ line ++ body) =
      splitInclusive metadata ++ line :: splitInclusive body := by
  rw [List.append_assoc, splitInclusive_append hmetadata]
  rcases hline with ⟨content, rfl, hcontent⟩ | ⟨hnone, rfl⟩
  · rw [List.append_assoc, List.singleton_append, splitInclusive_line hcontent]
  · rw [List.append_nil, splitInclusive_last hnone hne]
    rfl

/-- The closing line is the first delimiter line after the opening one. -/
theorem splitAtDelimiter_splitInclusive (hdelimiter : delimiter ≠ []) :
    splitAtDelimiter delimiter (splitInclusive text) = some (metadata, body) ↔
      EndsLine metadata ∧ (∀ line ∈ splitInclusive metadata, stripLine line ≠ delimiter) ∧
        ∃ last, text = metadata ++ last ++ body ∧ LineBefore last body ∧
          stripLine last = delimiter := by
  rw [splitAtDelimiter_eq_some]
  constructor
  · rintro ⟨before, line, after, hlines, hbefore, hline, rfl, rfl⟩
    obtain ⟨hends, hsplit, hlast⟩ := splitInclusive_eq_append hlines
    refine ⟨hends, by rwa [hsplit], line, ?_, hlast, hline⟩
    rw [← flatten_splitInclusive text, hlines]
    simp
  · rintro ⟨hends, hfree, last, rfl, hlast, hline⟩
    have hne : last ≠ [] := by
      rintro rfl
      exact hdelimiter hline.symm
    refine ⟨_, last, _, splitInclusive_lineBefore hends hlast hne, hfree, hline, ?_, ?_⟩
    · simp
    · simp

end Closing

/-! ### The three results -/

section Results

variable {source rest metadata body : List Char} {kind : FrontMatterKind}

/-- Behind an opening line only the closing line matters. -/
theorem frontMatter_of_opens (h : Opens source kind rest) :
    frontMatter source = match splitAtDelimiter kind.delimiter (splitInclusive rest) with
      | some (metadata, body) => .ok (some (kind, metadata, body))
      | none => .error unclosedFrontMatter := by
  obtain ⟨first, rfl, ⟨content, rfl, hcontent⟩, hkind⟩ := h
  rw [List.append_assoc, List.singleton_append]
  have hmem : ¬ '\n' ∉ content ++ '\n' :: rest := by simp
  rw [stripLine_newline hcontent] at hkind
  unfold frontMatter
  rw [if_neg hmem, takeWhile_ne_append hcontent, dropWhile_ne_append hcontent]
  simp only [hkind, List.drop_succ_cons, List.drop_zero]
  cases kind with
  | yaml => rfl
  | toml => rfl

theorem frontMatter_of_not_opens (h : ¬ ∃ kind rest, Opens source kind rest) :
    frontMatter source = .ok none := by
  unfold frontMatter
  by_cases hmem : '\n' ∉ source
  · rw [if_pos hmem]
  rw [if_neg hmem]
  obtain ⟨content, rest, rfl, hcontent⟩ := exists_first (not_not.mp hmem)
  have hother : ∀ kind : FrontMatterKind, trimEndMatches (· = '\r') content ≠ kind.delimiter := by
    intro kind hkind
    rw [← stripLine_newline hcontent] at hkind
    exact h ⟨kind, rest, content ++ ['\n'], by simp, ⟨content, rfl, hcontent⟩, hkind⟩
  have hyaml : trimEndMatches (· = '\r') content ≠ ['-', '-', '-'] := hother .yaml
  have htoml : trimEndMatches (· = '\r') content ≠ ['+', '+', '+'] := hother .toml
  rw [takeWhile_ne_append hcontent]
  dsimp only
  rw [if_neg hyaml, if_neg htoml]

/-- **Metadata and body** are found exactly where the text splits. -/
theorem frontMatter_ok_some_iff :
    frontMatter source = .ok (some (kind, metadata, body)) ↔ SplitsAs source kind metadata body := by
  by_cases hopens : ∃ kind rest, Opens source kind rest
  · obtain ⟨kind', rest, h⟩ := hopens
    rw [frontMatter_of_opens h]
    constructor
    · intro hresult
      cases hsplit : splitAtDelimiter kind'.delimiter (splitInclusive rest) with
      | none =>
        rw [hsplit] at hresult
        exact nomatch hresult
      | some parts =>
        rw [hsplit] at hresult
        obtain ⟨rfl, hparts⟩ := Prod.mk.inj (Option.some.inj (Except.ok.inj hresult))
        obtain rfl : parts = (metadata, body) := hparts
        obtain ⟨hends, hfree, last, rfl, hlast, hline⟩ :=
          (splitAtDelimiter_splitInclusive FrontMatterKind.delimiter_ne_nil).mp hsplit
        exact ⟨⟨last, h, hlast, hline⟩, hends, hfree⟩
    · rintro ⟨⟨last, h', hlast, hline⟩, hends, hfree⟩
      obtain ⟨rfl, rfl⟩ := h.rest_eq h'
      rw [(splitAtDelimiter_splitInclusive FrontMatterKind.delimiter_ne_nil).mpr
        ⟨hends, hfree, last, rfl, hlast, hline⟩]
  · rw [frontMatter_of_not_opens hopens]
    constructor
    · intro hresult
      exact nomatch Except.ok.inj hresult
    · rintro ⟨⟨last, h, -⟩, -⟩
      exact absurd ⟨kind, _, h⟩ hopens

/-- **An error** means an opening line that nothing closes. -/
theorem frontMatter_error_iff {failure : ParseFailure} :
    frontMatter source = .error failure ↔ failure = unclosedFrontMatter ∧
      ∃ kind rest, Opens source kind rest ∧ DelimiterFree kind rest := by
  by_cases hopens : ∃ kind rest, Opens source kind rest
  · obtain ⟨kind, rest, h⟩ := hopens
    rw [frontMatter_of_opens h]
    constructor
    · intro hresult
      cases hsplit : splitAtDelimiter kind.delimiter (splitInclusive rest) with
      | none =>
        rw [hsplit] at hresult
        refine ⟨(Except.error.inj hresult).symm, kind, rest, h, ?_⟩
        exact splitAtDelimiter_eq_none.mp hsplit
      | some parts =>
        rw [hsplit] at hresult
        exact nomatch hresult
    · rintro ⟨rfl, kind', rest', h', hfree⟩
      obtain ⟨rfl, rfl⟩ := h.rest_eq h'
      rw [splitAtDelimiter_eq_none.mpr hfree]
  · rw [frontMatter_of_not_opens hopens]
    constructor
    · exact (nomatch ·)
    · rintro ⟨-, kind, rest, h, -⟩
      exact absurd ⟨kind, rest, h⟩ hopens

/-- **Nothing** is found exactly without an opening line. -/
theorem frontMatter_ok_none_iff :
    frontMatter source = .ok none ↔ ¬ ∃ kind rest, Opens source kind rest := by
  constructor
  · rintro hresult ⟨kind, rest, h⟩
    rw [frontMatter_of_opens h] at hresult
    cases hsplit : splitAtDelimiter kind.delimiter (splitInclusive rest) <;> rw [hsplit] at hresult
    · exact nomatch hresult
    · exact nomatch Except.ok.inj hresult
  · exact frontMatter_of_not_opens

/-- **What is wrapped is found again**, with either line end, or with none after the last
    delimiter. -/
theorem frontMatter_wrap {eol eol' : List Char} (heol : eol = ['\n'] ∨ eol = ['\r', '\n'])
    (heol' : eol' = ['\n'] ∨ eol' = ['\r', '\n'] ∨ eol' = [] ∧ body = [])
    (hends : EndsLine metadata) (hfree : DelimiterFree kind metadata) :
    frontMatter (kind.delimiter ++ eol ++ metadata ++ kind.delimiter ++ eol' ++ body) =
      .ok (some (kind, metadata, body)) := by
  rw [frontMatter_ok_some_iff]
  refine ⟨⟨kind.delimiter ++ eol', ⟨kind.delimiter ++ eol, by simp, ?_, ?_⟩, ?_, ?_⟩, hends, hfree⟩
  · rcases heol with rfl | rfl
    · exact ⟨kind.delimiter, rfl, by cases kind <;> decide⟩
    · exact ⟨kind.delimiter ++ ['\r'], by simp, by cases kind <;> decide⟩
  · rcases heol with rfl | rfl <;> cases kind <;> decide
  · rcases heol' with rfl | rfl | ⟨rfl, rfl⟩
    · exact Or.inl ⟨kind.delimiter, rfl, by cases kind <;> decide⟩
    · exact Or.inl ⟨kind.delimiter ++ ['\r'], by simp, by cases kind <;> decide⟩
    · exact Or.inr ⟨by cases kind <;> decide, rfl⟩
  · rcases heol' with rfl | rfl | ⟨rfl, rfl⟩ <;> cases kind <;> decide

end Results

/-! ### Byte offsets -/

/-- The length of a text in UTF-8. -/
def byteLength (text : List Char) : Nat := (text.map Char.utf8Size).sum

/-- `&text[offset..]`; there is none where the offset is out of bounds or inside a character. -/
def dropBytes : List Char → Nat → Option (List Char)
  | text, 0 => some text
  | [], _ + 1 => none
  | c :: rest, n + 1 => if c.utf8Size ≤ n + 1 then dropBytes rest (n + 1 - c.utf8Size) else none

/-- `&text[..offset]`, under the same conditions. -/
def takeBytes : List Char → Nat → Option (List Char)
  | _, 0 => some []
  | [], _ + 1 => none
  | c :: rest, n + 1 =>
      if c.utf8Size ≤ n + 1 then (takeBytes rest (n + 1 - c.utf8Size)).map (c :: ·) else none

/-- `&text[start..stop]`. -/
def slice (text : List Char) (start stop : Nat) : Option (List Char) :=
  if start ≤ stop then (dropBytes text start).bind (takeBytes · (stop - start)) else none

/-- `text.find(c)`, a byte offset. -/
def findByte (c : Char) (text : List Char) : Option Nat :=
  if c ∈ text then some (byteLength (text.takeWhile (· ≠ c))) else none

/-- The loop of `front_matter`: where the closing line starts and where it ends. -/
def closingOffsets (delimiter : List Char) (offset : Nat) : List (List Char) → Option (Nat × Nat)
  | [] => none
  | line :: lines =>
      let lineEnd := offset + byteLength line
      if stripLine line = delimiter then some (offset, lineEnd)
      else closingOffsets delimiter lineEnd lines

/-- `front_matter` with the offsets of the source; `none` is a slice that panics. -/
def sliceFrontMatter (source : List Char) :
    Option (Except ParseFailure (Option (FrontMatterKind × List Char × List Char))) :=
  match findByte '\n' source with
  | none => some (.ok none)
  | some firstEnd => do
      let first := trimEndMatches (· = '\r') (← takeBytes source firstEnd)
      let close (kind : FrontMatterKind) :
          Option (Except ParseFailure (Option (FrontMatterKind × List Char × List Char))) := do
        let metadataStart := firstEnd + 1
        match closingOffsets first metadataStart
            (splitInclusive (← dropBytes source metadataStart)) with
        | some (offset, lineEnd) =>
            return .ok (some
              (kind, ← slice source metadataStart offset, ← dropBytes source lineEnd))
        | none => return .error unclosedFrontMatter
      if first = ['-', '-', '-'] then close .yaml
      else if first = ['+', '+', '+'] then close .toml
      else return .ok none

section Bytes

variable {delimiter text before after metadata body : List Char} {lines : List (List Char)}

@[simp] theorem byteLength_append : byteLength (before ++ after) = byteLength before + byteLength after := by
  simp [byteLength]

theorem dropBytes_cons (c : Char) (text : List Char) (n : Nat) :
    dropBytes (c :: text) (c.utf8Size + n) = dropBytes text n := by
  obtain ⟨k, hk⟩ : ∃ k, c.utf8Size + n = k + 1 :=
    ⟨c.utf8Size + n - 1, by have := c.utf8Size_pos; omega⟩
  rw [hk, dropBytes, if_pos (by omega), ← hk, Nat.add_sub_cancel_left]

theorem takeBytes_cons (c : Char) (text : List Char) (n : Nat) :
    takeBytes (c :: text) (c.utf8Size + n) = (takeBytes text n).map (c :: ·) := by
  obtain ⟨k, hk⟩ : ∃ k, c.utf8Size + n = k + 1 :=
    ⟨c.utf8Size + n - 1, by have := c.utf8Size_pos; omega⟩
  rw [hk, takeBytes, if_pos (by omega), ← hk, Nat.add_sub_cancel_left]

theorem dropBytes_append : dropBytes (before ++ after) (byteLength before) = some after := by
  induction before with
  | nil => cases after <;> rfl
  | cons c before ih =>
    show dropBytes (c :: (before ++ after)) (c.utf8Size + byteLength before) = some after
    rw [dropBytes_cons, ih]

theorem takeBytes_append : takeBytes (before ++ after) (byteLength before) = some before := by
  induction before with
  | nil => cases after <;> rfl
  | cons c before ih =>
    show takeBytes (c :: (before ++ after)) (c.utf8Size + byteLength before) = some (c :: before)
    rw [takeBytes_cons, ih]
    rfl

theorem slice_append : slice (before ++ text ++ after) (byteLength before)
    (byteLength before + byteLength text) = some text := by
  have hle : byteLength before ≤ byteLength before + byteLength text := by omega
  rw [slice, if_pos hle, List.append_assoc, dropBytes_append, Nat.add_sub_cancel_left,
    Option.bind_some, takeBytes_append]

/-- The loop's offsets are those of the parts that `splitAtDelimiter` returns. -/
theorem closingOffsets_eq (offset : Nat) :
    (splitAtDelimiter delimiter lines = none ∧ closingOffsets delimiter offset lines = none) ∨
      ∃ metadata last body, splitAtDelimiter delimiter lines = some (metadata, body) ∧
        lines.flatten = metadata ++ last ++ body ∧ closingOffsets delimiter offset lines =
          some (offset + byteLength metadata, offset + byteLength metadata + byteLength last) := by
  induction lines generalizing offset with
  | nil => exact Or.inl ⟨rfl, rfl⟩
  | cons line lines ih =>
    by_cases hline : stripLine line = delimiter
    · refine Or.inr ⟨[], line, lines.flatten, if_pos hline, by simp, ?_⟩
      rw [closingOffsets, if_pos hline]
      rfl
    · have hsplit : splitAtDelimiter delimiter (line :: lines) =
          (splitAtDelimiter delimiter lines).map fun split => (line ++ split.1, split.2) :=
        if_neg hline
      have hoffsets : closingOffsets delimiter offset (line :: lines) =
          closingOffsets delimiter (offset + byteLength line) lines := if_neg hline
      rw [hsplit, hoffsets]
      rcases ih (offset + byteLength line) with ⟨hnone, hnone'⟩ | ⟨metadata, last, body, h, hflat, h'⟩
      · exact Or.inl ⟨by rw [hnone]; rfl, hnone'⟩
      · refine Or.inr ⟨line ++ metadata, last, body, by rw [h]; rfl, by simp [hflat], ?_⟩
        rw [h', byteLength_append, Nat.add_assoc offset]

/-- **No slice falls inside a character**, and the offsets are those of the parts. -/
theorem sliceFrontMatter_eq (source : List Char) :
    sliceFrontMatter source = some (frontMatter source) := by
  by_cases hmem : '\n' ∈ source
  · obtain ⟨content, rest, rfl, hcontent⟩ := exists_first hmem
    have hfind : findByte '\n' (content ++ '\n' :: rest) = some (byteLength content) := by
      rw [findByte, if_pos hmem, takeWhile_ne_append hcontent]
    have hrest : dropBytes (content ++ '\n' :: rest) (byteLength content + 1) = some rest := by
      have happend : content ++ '\n' :: rest = (content ++ ['\n']) ++ rest := by simp
      have hlength : byteLength content + 1 = byteLength (content ++ ['\n']) := by
        rw [byteLength_append]
        rfl
      rw [happend, hlength, dropBytes_append]
    unfold sliceFrontMatter frontMatter
    rw [hfind, if_neg (not_not.mpr hmem), takeWhile_ne_append hcontent,
      dropWhile_ne_append hcontent]
    simp only [takeBytes_append, hrest, List.drop_succ_cons, List.drop_zero, Option.bind_eq_bind,
      Option.bind_some]
    -- both sides look for the closing line in `rest`, whatever the opening line is
    rcases @closingOffsets_eq (trimEndMatches (· = '\r') content) (splitInclusive rest)
      (byteLength content + 1) with ⟨hsplit, hoffsets⟩ | ⟨metadata, last, body, hsplit, hflat, hoffsets⟩
    · rw [hsplit, hoffsets]
      split_ifs <;> rfl
    · have hsource : content ++ '\n' :: rest = (content ++ ['\n']) ++ metadata ++ last ++ body := by
        rw [← flatten_splitInclusive rest, hflat]
        simp
      have hstart : byteLength content + 1 = byteLength (content ++ ['\n']) := by
        rw [byteLength_append]
        rfl
      have hmetadata : slice (content ++ '\n' :: rest) (byteLength content + 1)
          (byteLength content + 1 + byteLength metadata) = some metadata := by
        rw [hsource, hstart, List.append_assoc (_ ++ metadata), slice_append]
      have hbody : dropBytes (content ++ '\n' :: rest)
          (byteLength content + 1 + byteLength metadata + byteLength last) = some body := by
        rw [hsource, hstart, ← byteLength_append, ← byteLength_append, dropBytes_append]
      rw [hsplit, hoffsets]
      simp only [hmetadata, hbody, Option.bind_some]
      split_ifs <;> rfl
  · have hfind : findByte '\n' source = none := if_neg hmem
    rw [sliceFrontMatter, hfind, frontMatter, if_pos hmem]

end Bytes

/-- **Front matter is split exactly.**  Metadata and body are found exactly where the text splits;
    an error means an opening delimiter line that nothing closes; without an opening line nothing is
    found.  No slice falls inside a character, and what is wrapped in delimiter lines is found
    again. -/
theorem frontMatter_exact (source : List Char) :
    (∀ kind metadata body, frontMatter source = .ok (some (kind, metadata, body)) ↔
      SplitsAs source kind metadata body) ∧
    (∀ failure, frontMatter source = .error failure ↔ failure = unclosedFrontMatter ∧
      ∃ kind rest, Opens source kind rest ∧ DelimiterFree kind rest) ∧
    (frontMatter source = .ok none ↔ ¬ ∃ kind rest, Opens source kind rest) ∧
    sliceFrontMatter source = some (frontMatter source) ∧
    ∀ kind eol eol' metadata body, eol ∈ [['\n'], ['\r', '\n']] →
      (eol' ∈ [['\n'], ['\r', '\n']] ∨ eol' = [] ∧ body = []) →
      EndsLine metadata → DelimiterFree kind metadata →
      source = kind.delimiter ++ eol ++ metadata ++ kind.delimiter ++ eol' ++ body →
        frontMatter source = .ok (some (kind, metadata, body)) := by
  refine ⟨fun kind metadata body => frontMatter_ok_some_iff, fun failure => frontMatter_error_iff,
    frontMatter_ok_none_iff, sliceFrontMatter_eq source, ?_⟩
  rintro kind eol eol' metadata body heol heol' hends hfree rfl
  have heol : eol = ['\n'] ∨ eol = ['\r', '\n'] := by simpa using heol
  have heol' : eol' = ['\n'] ∨ eol' = ['\r', '\n'] ∨ eol' = [] ∧ body = [] := by
    simpa [or_assoc] using heol'
  exact frontMatter_wrap heol heol' hends hfree

theorem frontMatter_exact_sample :
    frontMatter "+++\r\na = 1\n+++".toList = .ok (some (.toml, "a = 1\n".toList, [])) := by
  have hfree : DelimiterFree .toml "a = 1\n".toList := by
    show ∀ line ∈ splitInclusive _, _
    decide
  exact (frontMatter_exact _).2.2.2.2 .toml ['\r', '\n'] [] _ [] (by decide) (Or.inr ⟨rfl, rfl⟩)
    (Or.inr (by decide)) hfree (by decide)

end Rationale.Docs
