import Mathlib.Data.List.TakeWhile
import Rationale.Text
import Rationale.Library.SortUniq

namespace Rationale.Text

open Std

/-!
# Splitting text

What the splitting functions of the standard library return, as equations on the text.

* `splitOnce_eq_some`, `rsplitOnce_eq_some`, `stripPrefix_eq_some` — a text is its two parts around
  the first or last separator, or after a prefix;
* `infix_trim`, `trim_append`, `exists_trim` — what is trimmed stands in the text, and exactly the white
  space around it goes;
* `splitWhitespace_append`, `splitWhitespace_intercalate` — words, and lists of them;
* `toLower_cases`, `eq_dot_of_toLower` — what ASCII lower case changes;
* `splitInclusive_line`, `splitInclusive_append` — the lines of a text, one at a time and by blocks
  of whole lines;
* `mem_dedupBy`, `dedupBy_pairwise` — dropping repetitions loses nothing, and a sorted list
  increases strictly after it.
-/

/-! ### Around one separator -/

section Once

variable {d : Char} {text before after : List Char}

theorem takeWhile_ne_append (h : d ∉ before) :
    (before ++ d :: after).takeWhile (· ≠ d) = before := by
  have hall : ∀ c ∈ before, (decide (c ≠ d)) = true := by
    intro c hc
    simpa using fun heq : c = d => h (heq ▸ hc)
  rw [List.takeWhile_append_of_pos hall]
  simp

theorem dropWhile_ne_append (h : d ∉ before) :
    (before ++ d :: after).dropWhile (· ≠ d) = d :: after := by
  have hall : ∀ c ∈ before, (decide (c ≠ d)) = true := by
    intro c hc
    simpa using fun heq : c = d => h (heq ▸ hc)
  rw [List.dropWhile_append_of_pos hall]
  simp

/-- A text with a separator in it, cut at the first one. -/
theorem exists_first (h : d ∈ text) : ∃ before after, text = before ++ d :: after ∧ d ∉ before := by
  obtain ⟨before, after, htext, hbefore⟩ := List.eq_append_cons_of_mem h
  exact ⟨before, after, htext, hbefore⟩

theorem splitOnce_append (h : d ∉ before) :
    splitOnce d (before ++ d :: after) = some (before, after) := by
  have hmem : d ∈ before ++ d :: after := by simp
  rw [splitOnce, if_pos hmem, takeWhile_ne_append h, dropWhile_ne_append h]
  rfl

theorem splitOnce_eq_none : splitOnce d text = none ↔ d ∉ text := by
  by_cases h : d ∈ text <;> simp [splitOnce, h]

theorem splitOnce_eq_some :
    splitOnce d text = some (before, after) ↔ text = before ++ d :: after ∧ d ∉ before := by
  constructor
  · intro h
    have hmem : d ∈ text := by
      by_contra hnot
      rw [splitOnce_eq_none.mpr hnot] at h
      exact nomatch h
    obtain ⟨before', after', rfl, hbefore⟩ := exists_first hmem
    rw [splitOnce_append hbefore] at h
    obtain ⟨rfl, rfl⟩ := Prod.mk.inj (Option.some.inj h)
    exact ⟨rfl, hbefore⟩
  · rintro ⟨rfl, h⟩
    exact splitOnce_append h

theorem rsplitOnce_eq_none : rsplitOnce d text = none ↔ d ∉ text := by
  simp [rsplitOnce, splitOnce_eq_none]

theorem rsplitOnce_eq_some :
    rsplitOnce d text = some (before, after) ↔ text = before ++ d :: after ∧ d ∉ after := by
  unfold rsplitOnce
  rw [Option.map_eq_some_iff]
  constructor
  · rintro ⟨⟨last, first⟩, hsplit, heq⟩
    obtain ⟨hreverse, hlast⟩ := splitOnce_eq_some.mp hsplit
    obtain ⟨rfl, rfl⟩ := Prod.mk.inj heq
    refine ⟨?_, by simpa using hlast⟩
    have htext := congrArg List.reverse hreverse
    simpa using htext
  · rintro ⟨rfl, h⟩
    refine ⟨(after.reverse, before.reverse), splitOnce_eq_some.mpr ⟨?_, by simpa using h⟩, ?_⟩
    · simp
    · simp

end Once

section Strip

variable {pre text rest : List Char}

theorem stripPrefix_eq_some : stripPrefix pre text = some rest ↔ text = pre ++ rest := by
  unfold stripPrefix
  rw [Option.ite_none_right_eq_some, List.isPrefixOf_iff_prefix]
  constructor
  · rintro ⟨⟨rest', rfl⟩, h⟩
    rw [List.drop_left, Option.some.injEq] at h
    rw [h]
  · rintro rfl
    exact ⟨List.prefix_append pre rest, by rw [List.drop_left]⟩

theorem stripPrefix_eq_none : stripPrefix pre text = none ↔ ¬ pre <+: text := by
  unfold stripPrefix
  rw [← List.isPrefixOf_iff_prefix]
  by_cases h : pre.isPrefixOf text <;> simp [h]

theorem stripSuffix_eq_some {suf : List Char} : stripSuffix suf text = some rest ↔ text = rest ++ suf := by
  unfold stripSuffix
  simp only [Option.map_eq_some_iff, stripPrefix_eq_some]
  constructor
  · rintro ⟨reversed, hreverse, rfl⟩
    simpa using congrArg List.reverse hreverse
  · rintro rfl
    exact ⟨rest.reverse, List.reverse_append, List.reverse_reverse rest⟩

theorem stripSuffix_eq_none {suf : List Char} : stripSuffix suf text = none ↔ ¬ suf <:+ text := by
  unfold stripSuffix
  rw [Option.map_eq_none_iff, stripPrefix_eq_none, List.reverse_prefix]

end Strip

/-! ### Trimmed texts -/

section Trim

variable {text pad pad' : List Char}

/-- What is left of a text stands in it. -/
theorem infix_trim : trim text <:+: text := by
  have hend : trim text <:+: text.dropWhile isWhitespace := by
    rw [← List.reverse_infix]
    unfold trim trimMatches trimEndMatches
    rw [List.reverse_reverse]
    exact (List.dropWhile_suffix _).isInfix
  exact hend.trans (List.dropWhile_suffix _).isInfix

/-- Nothing is dropped from a text that does not start with white space. -/
theorem dropWhile_whitespace (hpad : ∀ c ∈ pad, isWhitespace c = true)
    (hfirst : ∀ c ∈ text.head?, isWhitespace c = false) (hne : text ≠ []) :
    (pad ++ text ++ pad').dropWhile isWhitespace = text ++ pad' := by
  obtain ⟨c, text, rfl⟩ := List.exists_cons_of_ne_nil hne
  have hc : isWhitespace c = false := hfirst c (by simp)
  rw [List.append_assoc, List.dropWhile_append_of_pos hpad, List.cons_append,
    List.dropWhile_cons_of_neg (by rw [hc]; simp)]

/-- White space around a text is trimmed. -/
theorem trim_append (hpad : ∀ c ∈ pad, isWhitespace c = true)
    (hpad' : ∀ c ∈ pad', isWhitespace c = true) (hne : text ≠ [])
    (hfirst : ∀ c ∈ text.head?, isWhitespace c = false)
    (hlast : ∀ c ∈ text.getLast?, isWhitespace c = false) :
    trim (pad ++ text ++ pad') = text := by
  unfold trim trimMatches trimEndMatches
  rw [dropWhile_whitespace hpad hfirst hne, List.reverse_append]
  have hreverse := @dropWhile_whitespace text.reverse pad'.reverse []
    (by simpa using hpad') (by simpa using hlast) (by simpa using hne)
  rw [List.append_nil, List.append_nil] at hreverse
  rw [hreverse, List.reverse_reverse]

variable {p : Char → Bool}

/-- What is trimmed from the end matches. -/
theorem exists_trimEndMatches (p : Char → Bool) (text : List Char) :
    ∃ pad, text = trimEndMatches p text ++ pad ∧ ∀ c ∈ pad, p c = true := by
  refine ⟨(text.reverse.takeWhile p).reverse, ?_, fun c hc => ?_⟩
  · unfold trimEndMatches
    rw [← List.reverse_append, List.takeWhile_append_dropWhile, List.reverse_reverse]
  · exact List.mem_takeWhile_imp (List.mem_reverse.mp hc)

theorem trimEndMatches_append (hpad : ∀ c ∈ pad, p c = true)
    (hlast : ∀ c ∈ text.getLast?, p c = false) : trimEndMatches p (text ++ pad) = text := by
  unfold trimEndMatches
  rw [List.reverse_append, List.dropWhile_append_of_pos (by simpa using hpad)]
  rcases List.eq_nil_or_concat text with rfl | ⟨before, c, rfl⟩
  · rfl
  · have hc : p c = false := hlast c (by simp)
    simp [hc]

/-- A text is what is left of it between what is trimmed. -/
theorem exists_trimMatches (p : Char → Bool) (text : List Char) :
    ∃ pad pad', text = pad ++ trimMatches p text ++ pad' ∧ (∀ c ∈ pad, p c = true) ∧
      (∀ c ∈ pad', p c = true) := by
  obtain ⟨pad', hrest, hpad'⟩ := exists_trimEndMatches p (text.dropWhile p)
  refine ⟨text.takeWhile p, pad', ?_, fun c hc => List.mem_takeWhile_imp hc, hpad'⟩
  calc text = text.takeWhile p ++ text.dropWhile p := List.takeWhile_append_dropWhile.symm
    _ = text.takeWhile p ++ (trimMatches p text ++ pad') := congrArg _ hrest
    _ = text.takeWhile p ++ trimMatches p text ++ pad' := (List.append_assoc _ _ _).symm

/-- A text is what is left of it between white space. -/
theorem exists_trim (text : List Char) :
    ∃ pad pad', text = pad ++ trim text ++ pad' ∧ (∀ c ∈ pad, isWhitespace c = true) ∧
      (∀ c ∈ pad', isWhitespace c = true) :=
  exists_trimMatches isWhitespace text

/-- What does not match is not trimmed. -/
theorem mem_trimMatches {c : Char} (hmem : c ∈ text) (hc : p c = false) :
    c ∈ trimMatches p text := by
  obtain ⟨pad, pad', htext, hpad, hpad'⟩ := exists_trimMatches p text
  have hnot : ∀ side : List Char, (∀ d ∈ side, p d = true) → c ∉ side := by
    intro side hside hin
    rw [hside c hin] at hc
    exact nomatch hc
  rw [htext, List.mem_append, List.mem_append] at hmem
  exact (hmem.resolve_right (hnot pad' hpad')).resolve_left (hnot pad hpad)

theorem mem_of_mem_trimMatches {c : Char} (h : c ∈ trimMatches p text) : c ∈ text := by
  obtain ⟨pad, pad', htext, -, -⟩ := exists_trimMatches p text
  rw [htext]
  exact List.mem_append_left _ (List.mem_append_right _ h)

/-- Nothing is trimmed between ends that do not match. -/
theorem trimMatches_eq_self (hfirst : ∀ c ∈ text.head?, p c = false)
    (hlast : ∀ c ∈ text.getLast?, p c = false) : trimMatches p text = text := by
  have hdrop : text.dropWhile p = text := by
    cases text with
    | nil => rfl
    | cons c text => exact List.dropWhile_cons_of_neg (by rw [hfirst c rfl]; decide)
  unfold trimMatches
  rw [hdrop]
  have hend := @trimEndMatches_append text [] p (by simp) hlast
  rwa [List.append_nil] at hend

/-- The last character left does not match. -/
theorem getLast?_trimMatches {c : Char} (h : (trimMatches p text).getLast? = some c) :
    p c = false := by
  unfold trimMatches trimEndMatches at h
  rw [List.getLast?_reverse] at h
  have hnot := List.head?_dropWhile_not p (text.dropWhile p).reverse
  rw [h] at hnot
  exact hnot

end Trim

/-! ### Words -/

section Words

variable {text word before after : List Char} {words : List (List Char)}

/-- The words of a text are not empty, and have no white space in them. -/
theorem mem_splitWhitespace (h : word ∈ splitWhitespace text) :
    word ≠ [] ∧ ∀ c ∈ word, isWhitespace c = false := by
  obtain ⟨hword, hne⟩ := List.mem_filter.mp h
  refine ⟨by simpa using hne, ?_⟩
  clear h hne
  induction text generalizing word with
  | nil =>
    rw [List.splitOnP_nil, List.mem_singleton] at hword
    rw [hword]
    exact fun c hc => absurd hc List.not_mem_nil
  | cons d text ih =>
    obtain ⟨first, rest, hsplit⟩ := List.exists_cons_of_ne_nil (List.splitOnP_ne_nil isWhitespace text)
    rw [List.splitOnP_cons_eq_if_modifyHead, hsplit] at hword
    rw [hsplit] at ih
    split at hword
    · rcases List.mem_cons.mp hword with rfl | hword
      · exact fun c hc => absurd hc List.not_mem_nil
      · exact ih hword
    · next hd =>
      rw [List.modifyHead_cons] at hword
      rcases List.mem_cons.mp hword with rfl | hword
      · intro c hc
        rcases List.mem_cons.mp hc with rfl | hc
        · simpa using hd
        · exact ih List.mem_cons_self c hc
      · exact ih (List.mem_cons_of_mem _ hword)

/-- Words are separated by any white space. -/
theorem splitWhitespace_append {separator : Char} (h : isWhitespace separator = true) :
    splitWhitespace (before ++ separator :: after) =
      splitWhitespace before ++ splitWhitespace after := by
  unfold splitWhitespace
  rw [List.splitOnP_append_cons before after h, List.filter_append]

theorem splitWhitespace_word (hne : word ≠ []) (h : ∀ c ∈ word, isWhitespace c = false) :
    splitWhitespace word = [word] := by
  unfold splitWhitespace
  rw [List.splitOnP_eq_singleton h, List.filter_cons_of_pos (by simpa using hne), List.filter_nil]

/-- Words between single spaces are read back. -/
theorem splitWhitespace_intercalate
    (h : ∀ word ∈ words, word ≠ [] ∧ ∀ c ∈ word, isWhitespace c = false) :
    splitWhitespace ([' '].intercalate words) = words := by
  induction words with
  | nil => rfl
  | cons word words ih =>
    obtain ⟨hne, hword⟩ := h word List.mem_cons_self
    cases words with
    | nil =>
      rw [List.intercalate_singleton]
      exact splitWhitespace_word hne hword
    | cons next words =>
      rw [List.intercalate_cons_cons, List.append_assoc, List.singleton_append,
        splitWhitespace_append (by decide), splitWhitespace_word hne hword,
        ih (fun word hword => h word (List.mem_cons_of_mem _ hword))]
      rfl

end Words

/-! ### Letter case -/

section Case

variable {c : Char}

theorem toLower_cases (c : Char) : c.toLower = c ∧ ¬ (65 ≤ c.toNat ∧ c.toNat ≤ 90) ∨
    (65 ≤ c.toNat ∧ c.toNat ≤ 90) ∧ c.toLower.toNat = c.toNat + 32 := by
  have hnat : c.val.toNat = c.toNat := rfl
  unfold Char.toLower
  split
  · next h =>
    have hupper : 65 ≤ c.toNat ∧ c.toNat ≤ 90 := by
      simpa [UInt32.le_iff_toNat_le] using h
    refine Or.inr ⟨hupper, ?_⟩
    show (c.val + 32).toNat = c.val.toNat + 32
    rw [UInt32.toNat_add]
    simp
    omega
  · next h =>
    refine Or.inl ⟨rfl, ?_⟩
    simpa [UInt32.le_iff_toNat_le] using h

theorem toLower_toLower (c : Char) : c.toLower.toLower = c.toLower := by
  rcases toLower_cases c with ⟨h, _⟩ | ⟨hupper, h⟩
  · rw [h, h]
  rcases toLower_cases c.toLower with ⟨h', _⟩ | ⟨hupper', _⟩
  · exact h'
  · omega

/-- No letter is a dot in lower case. -/
theorem eq_dot_of_toLower (h : c.toLower = '.') : c = '.' := by
  rcases toLower_cases c with ⟨heq, _⟩ | ⟨hupper, heq⟩
  · rw [← heq, h]
  · rw [h] at heq
    have hdot : 46 = c.toNat + 32 := heq
    omega

theorem lowercase_lowercase (value : List Char) :
    toAsciiLowercase (toAsciiLowercase value) = toAsciiLowercase value := by
  unfold toAsciiLowercase
  rw [List.map_map]
  exact List.map_congr_left fun c _ => toLower_toLower c

end Case

/-! ### Lines -/

section Lines

variable {line text rest : List Char}

theorem splitInclusive_line (h : '\n' ∉ line) :
    splitInclusive (line ++ '\n' :: rest) = (line ++ ['\n']) :: splitInclusive rest := by
  induction line with
  | nil => simp [splitInclusive]
  | cons c line ih =>
    obtain ⟨hc, hline⟩ := not_or.mp (mt List.mem_cons.mpr h)
    rw [List.cons_append, splitInclusive, if_neg (Ne.symm hc), ih hline]
    rfl

/-- The last line may have no end. -/
theorem splitInclusive_last (h : '\n' ∉ line) (hne : line ≠ []) : splitInclusive line = [line] := by
  induction line with
  | nil => exact absurd rfl hne
  | cons c line ih =>
    obtain ⟨hc, hline⟩ := not_or.mp (mt List.mem_cons.mpr h)
    rw [splitInclusive, if_neg (Ne.symm hc)]
    cases line with
    | nil => rfl
    | cons c' line => rw [ih hline (List.cons_ne_nil _ _)]

theorem splitInclusive_cons_ne {c : Char} (hc : c ≠ '\n') :
    ∃ line lines, splitInclusive (c :: rest) = (c :: line) :: lines ∧
      (splitInclusive rest = line :: lines ∨ line = [] ∧ lines = [] ∧ splitInclusive rest = []) := by
  rw [splitInclusive, if_neg hc]
  cases hrest : splitInclusive rest with
  | nil => exact ⟨[], [], rfl, Or.inr ⟨rfl, rfl, rfl⟩⟩
  | cons line lines => exact ⟨line, lines, rfl, Or.inl rfl⟩

@[simp] theorem flatten_splitInclusive (text : List Char) : (splitInclusive text).flatten = text := by
  induction text with
  | nil => rfl
  | cons c rest ih =>
    by_cases hc : c = '\n'
    · rw [splitInclusive, if_pos hc, List.flatten_cons, ih, hc]
      rfl
    · obtain ⟨line, lines, hsplit, hrest | ⟨rfl, rfl, hrest⟩⟩ := @splitInclusive_cons_ne rest c hc
      · rw [hrest, List.flatten_cons] at ih
        rw [hsplit, List.flatten_cons, List.cons_append, ih]
      · rw [hrest] at ih
        rw [hsplit, ← ih]
        rfl

/-- The text ends where a line does. -/
def EndsLine (text : List Char) : Prop := text = [] ∨ text.getLast? = some '\n'

theorem EndsLine.tail {c : Char} (h : EndsLine (c :: text)) (hc : c ≠ '\n') :
    text ≠ [] ∧ EndsLine text := by
  rcases h with h | h
  · exact absurd h (List.cons_ne_nil c text)
  cases text with
  | nil => exact absurd (Option.some.inj h) hc
  | cons c' text =>
    rw [List.getLast?_cons_cons] at h
    exact ⟨List.cons_ne_nil _ _, Or.inr h⟩

/-- Whole lines are split on their own. -/
theorem splitInclusive_append (h : EndsLine text) :
    splitInclusive (text ++ rest) = splitInclusive text ++ splitInclusive rest := by
  induction text with
  | nil => rfl
  | cons c text ih =>
    by_cases hc : c = '\n'
    · -- a line of its own
      have htail : EndsLine text := by
        rcases h with h | h
        · exact absurd h (List.cons_ne_nil c text)
        cases text with
        | nil => exact Or.inl rfl
        | cons c' text => exact Or.inr ((List.getLast?_cons_cons).symm.trans h)
      rw [List.cons_append, splitInclusive, if_pos hc, splitInclusive, if_pos hc, ih htail]
      rfl
    · obtain ⟨hne, htail⟩ := h.tail hc
      rw [List.cons_append, splitInclusive, if_neg hc, ih htail, splitInclusive, if_neg hc]
      cases hsplit : splitInclusive text with
      | nil =>
        have hflat := flatten_splitInclusive text
        rw [hsplit] at hflat
        exact absurd hflat.symm hne
      | cons line lines => rfl

/-- A text is empty, one unfinished line, or a line before another text. -/
theorem splitInclusive_cases (text : List Char) :
    text = [] ∨ ('\n' ∉ text ∧ text ≠ [] ∧ splitInclusive text = [text]) ∨
      ∃ line rest, text = line ++ '\n' :: rest ∧ '\n' ∉ line ∧
        splitInclusive text = (line ++ ['\n']) :: splitInclusive rest := by
  by_cases h : '\n' ∈ text
  · obtain ⟨line, rest, rfl, hline⟩ := exists_first h
    exact Or.inr (Or.inr ⟨line, rest, rfl, hline, splitInclusive_line hline⟩)
  by_cases hne : text = []
  · exact Or.inl hne
  · exact Or.inr (Or.inl ⟨h, hne, splitInclusive_last h hne⟩)

end Lines

/-! ### Repetitions -/

section Dedup

variable {α : Type} {same : α → α → Bool} {kept a : α} {l : List α}

theorem mem_of_mem_dedupAfter (h : a ∈ dedupAfter same kept l) : a = kept ∨ a ∈ l := by
  induction l generalizing kept with
  | nil => exact Or.inl (List.mem_singleton.mp h)
  | cons b l ih =>
    unfold dedupAfter at h
    split at h
    · exact (ih h).imp_right (List.mem_cons_of_mem b)
    · rcases List.mem_cons.mp h with rfl | h
      · exact Or.inl rfl
      · rcases ih h with rfl | h
        · exact Or.inr List.mem_cons_self
        · exact Or.inr (List.mem_cons_of_mem b h)

/-- Only repetitions are dropped. -/
theorem mem_dedupAfter_of_eq
    (hsame : ∀ x ∈ kept :: l, ∀ y ∈ kept :: l, same x y = true → x = y)
    (h : a ∈ kept :: l) : a ∈ dedupAfter same kept l := by
  induction l generalizing kept with
  | nil => exact h
  | cons b l ih =>
    unfold dedupAfter
    by_cases hkept : same kept b = true
    · have heq : kept = b := hsame kept (by simp) b (by simp) hkept
      subst heq
      rw [if_pos hkept]
      exact ih (fun x hx y hy => hsame x (List.mem_cons_of_mem _ hx) y (List.mem_cons_of_mem _ hy))
        (by simpa using h)
    · rw [if_neg hkept]
      rcases List.mem_cons.mp h with rfl | h
      · exact List.mem_cons_self
      · exact List.mem_cons_of_mem _ (ih (fun x hx y hy =>
          hsame x (List.mem_cons_of_mem _ hx) y (List.mem_cons_of_mem _ hy)) h)

theorem mem_of_mem_dedupBy (h : a ∈ dedupBy same l) : a ∈ l := by
  cases l with
  | nil => exact h
  | cons b l => exact List.mem_cons.mpr (mem_of_mem_dedupAfter h)

theorem mem_dedupBy_of_eq (hsame : ∀ x ∈ l, ∀ y ∈ l, same x y = true → x = y) :
    a ∈ dedupBy same l ↔ a ∈ l := by
  refine ⟨mem_of_mem_dedupBy, fun h => ?_⟩
  cases l with
  | nil => exact h
  | cons b l => exact mem_dedupAfter_of_eq hsame h

@[simp] theorem mem_dedupBy [DecidableEq α] : a ∈ dedupBy (· == ·) l ↔ a ∈ l :=
  mem_dedupBy_of_eq (fun _ _ _ _ h => eq_of_beq h)

end Dedup

section DedupKey

variable {α β : Type} [DecidableEq β] {key : α → β} {cmp : β → β → Ordering} [TransCmp cmp]
  [LawfulEqCmp cmp] {kept : α} {l : List α}

theorem dedupAfter_pairwise (h : (kept :: l).Pairwise (fun a b => (cmp (key a) (key b)).isLE)) :
    (dedupAfter (fun a b => key a == key b) kept l).Pairwise
      (fun a b => cmp (key a) (key b) = .lt) := by
  induction l generalizing kept with
  | nil => exact List.pairwise_singleton _ _
  | cons b l ih =>
    obtain ⟨hkept, hrest⟩ := List.pairwise_cons.mp h
    unfold dedupAfter
    by_cases heq : key kept = key b
    · rw [if_pos (beq_iff_eq.mpr heq)]
      exact ih (List.pairwise_cons.mpr
        ⟨fun a ha => hkept a (List.mem_cons_of_mem b ha), (List.pairwise_cons.mp hrest).2⟩)
    · rw [if_neg (by simpa using heq)]
      refine List.pairwise_cons.mpr ⟨fun a ha => ?_, ih hrest⟩
      -- `kept` is below `b`, and `b` is below or equal to everything after it
      have hlt : cmp (key kept) (key b) = .lt := by
        cases hcmp : cmp (key kept) (key b) with
        | lt => rfl
        | eq => exact absurd (LawfulEqCmp.eq_of_compare hcmp) heq
        | gt => exact absurd (hkept b List.mem_cons_self) (by rw [hcmp]; decide)
      rcases mem_of_mem_dedupAfter ha with rfl | ha
      · exact hlt
      · exact TransCmp.lt_of_lt_of_isLE hlt ((List.pairwise_cons.mp hrest).1 a ha)

/-- A sorted list without repetitions increases strictly. -/
theorem dedupBy_pairwise (h : l.Pairwise (fun a b => (cmp (key a) (key b)).isLE)) :
    (dedupBy (fun a b => key a == key b) l).Pairwise (fun a b => cmp (key a) (key b) = .lt) := by
  cases l with
  | nil => exact List.Pairwise.nil
  | cons b l => exact dedupAfter_pairwise h

end DedupKey

end Rationale.Text
