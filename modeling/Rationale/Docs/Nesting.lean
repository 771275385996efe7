import Rationale.Splitting
import Rationale.Docs.Text

namespace Rationale.Docs

open Std Rationale.Library Rationale.Text

/-!
# What the nesting guard bounds

`validate_structural_nesting` of `crates/rationale-docs/src/lib.rs` against the nesting of a text.

* `Scanner`, `DepthBounded` — the bracket depth after each part of a text, where the characters of
  comment-only lines can be left out;
* `OpenLevel`, `IndentationBounded` — the indentation levels that are open at a line;
* `validateStructuralNesting_eq_ok` — the guard bounds the levels, and the depth with the comments
  taken for text;
* `guarded_iff` — so the depth outside comments can be hidden by comments, and only by these.
-/

/-! ### Bracket depth -/

section Brackets

/-- A line whose first character that is no blank is `#`. -/
def isCommentLine (line : List Char) : Bool :=
  (line.dropWhile (fun c => c = ' ' ∨ c = '\t')).head? = some '#'

/-- The characters of a text, each with whether it stands on a comment-only line. -/
def marked (source : List Char) : List (Char × Bool) :=
  (splitInclusive source).flatMap fun line => line.map (·, isCommentLine line)

/-- The characters of a text, with its comments taken for text. -/
def unmarked (source : List Char) : List (Char × Bool) := source.map (·, false)

/-- The open brackets and the open quote after a part of a text. -/
structure Scanner where
  depth : Nat
  quote : Option Char
  /-- A backslash in double quotes came right before. -/
  escaped : Bool
  deriving DecidableEq

/-- A quoted string goes on to the delimiter; outside of it a comment is passed over. -/
def Scanner.next (s : Scanner) : Char × Bool → Scanner
  | (c, comment) => match s.quote with
    | some delimiter =>
        if s.escaped then { s with escaped := false }
        else if c = delimiter then { s with quote := none }
        else { s with escaped := decide (delimiter = '"' ∧ c = '\\') }
    | none =>
        if comment then s
        else if c = '\'' ∨ c = '"' then { s with quote := some c }
        else if c = '[' ∨ c = '{' then { s with depth := s.depth + 1 }
        else if c = ']' ∨ c = '}' then { s with depth := s.depth - 1 }
        else s

def Scanner.init : Scanner := ⟨0, none, false⟩

/-- After each part of the text that follows, the depth is within the limit. -/
def Scanner.Within (s : Scanner) (text : List (Char × Bool)) : Prop :=
  ∀ pre, pre <+: text → (pre.foldl Scanner.next s).depth ≤ maxStructuredNesting

/-- At every position of the text the depth is within the limit. -/
def DepthBounded (text : List (Char × Bool)) : Prop := Scanner.init.Within text

variable {s : Scanner} {text : List (Char × Bool)}

theorem Scanner.within_nil : s.Within [] ↔ s.depth ≤ maxStructuredNesting := by
  constructor
  · intro h
    exact h [] List.prefix_rfl
  · intro h pre hpre
    rw [List.prefix_nil.mp hpre]
    exact h

theorem Scanner.within_cons {c : Char × Bool} :
    s.Within (c :: text) ↔ s.depth ≤ maxStructuredNesting ∧ (s.next c).Within text := by
  constructor
  · intro h
    refine ⟨h [] List.nil_prefix, fun pre hpre => ?_⟩
    exact h (c :: pre) (List.cons_prefix_cons.mpr ⟨rfl, hpre⟩)
  · rintro ⟨hs, h⟩ pre hpre
    cases pre with
    | nil => exact hs
    | cons c' pre =>
      obtain ⟨rfl, htail⟩ := List.cons_prefix_cons.mp hpre
      exact h pre htail

/-- The second pass of the guard. -/
theorem bracketsBounded_eq_true {source : List Char} {depth : Nat} {quote : Option Char}
    {escaped : Bool} (hdepth : depth ≤ maxStructuredNesting)
    (hescaped : quote = none → escaped = false) :
    bracketsBounded depth quote escaped source = true ↔
      (⟨depth, quote, escaped⟩ : Scanner).Within (unmarked source) := by
  induction source generalizing depth quote escaped with
  | nil => simpa [unmarked, Scanner.within_nil, bracketsBounded] using hdepth
  | cons c source ih =>
    rw [unmarked, List.map_cons, Scanner.within_cons, and_iff_right hdepth]
    cases quote with
    | none =>
      -- outside a literal: quotes, then opening and closing brackets
      obtain rfl := hescaped rfl
      unfold bracketsBounded Scanner.next
      simp only [Bool.false_eq_true, if_false]
      by_cases hquote : c = '\'' ∨ c = '"'
      · rw [if_pos hquote, if_pos hquote]
        exact ih hdepth (fun h => nomatch h)
      rw [if_neg hquote, if_neg hquote]
      by_cases hopen : c = '[' ∨ c = '{'
      · rw [if_pos hopen, if_pos hopen, Bool.and_eq_true, decide_eq_true_eq]
        by_cases hlimit : depth + 1 ≤ maxStructuredNesting
        · rw [and_iff_right hlimit]
          exact ih hlimit (fun _ => rfl)
        · refine ⟨fun h => absurd h.1 hlimit, fun h => absurd (h [] List.nil_prefix) hlimit⟩
      rw [if_neg hopen, if_neg hopen]
      by_cases hclose : c = ']' ∨ c = '}'
      · rw [if_pos hclose, if_pos hclose]
        exact ih ((Nat.sub_le _ _).trans hdepth) (fun _ => rfl)
      · rw [if_neg hclose, if_neg hclose]
        exact ih hdepth (fun _ => rfl)
    | some delimiter =>
      -- inside a literal the depth stays
      unfold bracketsBounded Scanner.next
      dsimp only
      cases escaped with
      | true =>
        simp only [Bool.true_eq_false, and_false, if_false, if_true]
        exact ih hdepth (fun h => nomatch h)
      | false =>
        simp only [and_true, Bool.false_eq_true, if_false]
        by_cases hclose : c = delimiter
        · -- a backslash does not close double quotes
          have hescape : ¬ (delimiter = '"' ∧ c = '\\') := by
            rintro ⟨rfl, rfl⟩
            exact absurd hclose (by decide)
          rw [if_neg hescape, if_pos hclose, if_pos hclose]
          exact ih hdepth (fun _ => rfl)
        · rw [if_neg hclose, if_neg hclose]
          by_cases hescape : delimiter = '"' ∧ c = '\\'
          · rw [if_pos hescape, decide_eq_true hescape]
            exact ih hdepth (fun h => nomatch h)
          · rw [if_neg hescape, decide_eq_false hescape]
            exact ih hdepth (fun h => nomatch h)

end Brackets

/-! ### Indentation -/

section Indentation

/-- The indentation of a line that is neither blank nor a comment. -/
def indentationOf (line : List Char) : Option Nat :=
  let content := line.dropWhile (fun c => c = ' ' ∨ c = '\t')
  if content = [] ∨ content.head? = some '#' then none else some (line.length - content.length)

/-- A level is open when a line has it as its indentation and no line since is indented less. -/
def OpenLevel (indentations : List Nat) (level : Nat) : Prop :=
  0 < level ∧ ∃ before after, indentations = before ++ level :: after ∧ ∀ n ∈ after, level ≤ n

/-- After these lines the number of open levels is within the limit. -/
def LevelsWithin (indentations : List Nat) : Prop :=
  ∀ levels : List Nat, levels.Nodup → (∀ level ∈ levels, OpenLevel indentations level) →
    levels.length ≤ maxStructuredNesting

/-- At every line of the text that is neither blank nor a comment, the number of open levels is
    within the limit. -/
def IndentationBounded (source : List Char) : Prop :=
  ∀ pre, pre <+: (lines source).filterMap indentationOf → LevelsWithin pre

/-- The stack of the first pass holds the open levels, the innermost first. -/
structure Opened (indentations levels : List Nat) : Prop where
  mem_iff : ∀ level, level ∈ levels ↔ OpenLevel indentations level
  decreasing : levels.Pairwise (· > ·)

variable {indentations levels : List Nat} {n level : Nat}

theorem openLevel_concat : OpenLevel (indentations ++ [n]) level ↔
    0 < level ∧ level = n ∨ OpenLevel indentations level ∧ level < n := by
  constructor
  · rintro ⟨hpos, before, after, heq, hafter⟩
    rcases List.eq_nil_or_concat after with rfl | ⟨after, n', rfl⟩
    · obtain ⟨-, heq⟩ := List.append_inj' heq rfl
      exact Or.inl ⟨hpos, (List.cons.inj heq).1.symm⟩
    · rw [List.concat_eq_append] at heq hafter
      rw [← List.cons_append, ← List.append_assoc] at heq
      obtain ⟨rfl, hlast⟩ := List.append_inj' heq rfl
      obtain rfl : n = n' := (List.cons.inj hlast).1
      rcases Nat.eq_or_lt_of_le (hafter n (by simp)) with rfl | hlt
      · exact Or.inl ⟨hpos, rfl⟩
      · exact Or.inr ⟨⟨hpos, before, after, rfl, fun m hm => hafter m (by simp [hm])⟩, hlt⟩
  · rintro (⟨hpos, rfl⟩ | ⟨⟨hpos, before, after, rfl, hafter⟩, hlt⟩)
    · exact ⟨hpos, indentations, [], rfl, by simp⟩
    · refine ⟨hpos, before, after ++ [n], by simp, fun m hm => ?_⟩
      rcases List.mem_append.mp hm with hm | hm
      · exact hafter m hm
      · rw [List.mem_singleton.mp hm]
        exact hlt.le

/-- Of decreasing levels, those that are not below a line's indentation come first. -/
theorem mem_dropWhile_ge (h : levels.Pairwise (· > ·)) :
    level ∈ levels.dropWhile (fun level => level ≥ n) ↔ level ∈ levels ∧ level < n := by
  induction levels with
  | nil => simp
  | cons top levels ih =>
    obtain ⟨htop, hrest⟩ := List.pairwise_cons.mp h
    by_cases hge : top ≥ n
    · rw [List.dropWhile_cons_of_pos (by simpa using hge), ih hrest, List.mem_cons]
      constructor
      · rintro ⟨hmem, hlt⟩
        exact ⟨Or.inr hmem, hlt⟩
      · rintro ⟨rfl | hmem, hlt⟩
        · omega
        · exact ⟨hmem, hlt⟩
    · rw [List.dropWhile_cons_of_neg (by simpa using hge), List.mem_cons]
      refine ⟨fun hmem => ⟨hmem, ?_⟩, And.left⟩
      rcases hmem with rfl | hmem
      · omega
      · have hlt := htop level hmem
        omega

theorem pushIndentation_of_none {line : List Char} (h : indentationOf line = none) :
    pushIndentation levels line = levels := by
  unfold indentationOf at h
  unfold pushIndentation
  dsimp only at h ⊢
  split at h
  · next hskip => rw [if_pos hskip]
  · exact nomatch h

theorem pushIndentation_of_some {line : List Char} (h : indentationOf line = some n) :
    pushIndentation levels line =
      if n > 0 then n :: levels.dropWhile (fun level => level ≥ n)
      else levels.dropWhile (fun level => level ≥ n) := by
  unfold indentationOf at h
  unfold pushIndentation
  dsimp only at h ⊢
  split at h
  · exact nomatch h
  · next hskip =>
    obtain rfl := Option.some.inj h
    rw [if_neg hskip]

theorem opened_nil : Opened [] [] := by
  refine ⟨fun level => ?_, List.Pairwise.nil⟩
  constructor
  · intro h
    exact nomatch h
  · rintro ⟨-, before, after, heq, -⟩
    simp at heq

/-- One line of the first pass. -/
theorem Opened.push (h : Opened indentations levels) {line : List Char}
    (hline : indentationOf line = some n) :
    Opened (indentations ++ [n]) (pushIndentation levels line) := by
  have hdrop : ∀ level, level ∈ levels.dropWhile (fun level => level ≥ n) ↔
      OpenLevel indentations level ∧ level < n := by
    intro level
    rw [mem_dropWhile_ge h.decreasing, h.mem_iff]
  have hsub : (levels.dropWhile (fun level => level ≥ n)).Pairwise (· > ·) :=
    h.decreasing.sublist (List.dropWhile_sublist _)
  rw [pushIndentation_of_some hline]
  by_cases hpos : n > 0
  · rw [if_pos hpos]
    refine ⟨fun level => ?_, List.pairwise_cons.mpr ⟨fun level hlevel => ?_, hsub⟩⟩
    · rw [List.mem_cons, hdrop, openLevel_concat]
      constructor
      · rintro (rfl | hlevel)
        · exact Or.inl ⟨hpos, rfl⟩
        · exact Or.inr hlevel
      · rintro (⟨-, rfl⟩ | hlevel)
        · exact Or.inl rfl
        · exact Or.inr hlevel
    · exact ((hdrop level).mp hlevel).2
  · rw [if_neg hpos]
    refine ⟨fun level => ?_, hsub⟩
    rw [hdrop, openLevel_concat]
    refine ⟨Or.inr, ?_⟩
    rintro (⟨hlevel, rfl⟩ | hlevel)
    · exact absurd hlevel hpos
    · exact hlevel

/-- The stack counts the open levels. -/
theorem Opened.levelsWithin_iff (h : Opened indentations levels) :
    LevelsWithin indentations ↔ levels.length ≤ maxStructuredNesting := by
  constructor
  · intro hwithin
    refine hwithin levels ?_ (fun level hlevel => (h.mem_iff level).mp hlevel)
    exact h.decreasing.imp (fun hgt heq => absurd heq (by omega))
  · intro hlength levels' hnodup hopen
    have hsub : levels' ⊆ levels := fun level hlevel => (h.mem_iff level).mpr (hopen level hlevel)
    exact (hnodup.subperm hsub).length_le.trans hlength

/-- The first pass of the guard. -/
theorem Opened.indentationBounded_iff (h : Opened indentations levels) {ls : List (List Char)} :
    levels.length ≤ maxStructuredNesting ∧ indentationBounded levels ls = true ↔
      ∀ pre, pre <+: ls.filterMap indentationOf → LevelsWithin (indentations ++ pre) := by
  induction ls generalizing indentations levels with
  | nil =>
    rw [← h.levelsWithin_iff]
    constructor
    · rintro ⟨hwithin, -⟩ pre hpre
      rw [List.prefix_nil.mp hpre, List.append_nil]
      exact hwithin
    · intro hall
      have hnow := hall [] List.nil_prefix
      rw [List.append_nil] at hnow
      exact ⟨hnow, rfl⟩
  | cons line ls ih =>
    unfold indentationBounded
    rw [Bool.and_eq_true, decide_eq_true_eq]
    cases hline : indentationOf line with
    | none =>
      -- a blank line or a comment opens and closes nothing
      rw [pushIndentation_of_none hline, List.filterMap_cons_none hline, ← ih h]
      tauto
    | some n =>
      rw [List.filterMap_cons_some hline, ih (h.push hline), ← h.levelsWithin_iff]
      constructor
      · rintro ⟨hnow, hall⟩ pre hpre
        cases pre with
        | nil => simpa using hnow
        | cons n' pre =>
          obtain ⟨rfl, htail⟩ := List.cons_prefix_cons.mp hpre
          have hrest := hall pre htail
          rwa [List.append_assoc, List.singleton_append] at hrest
      · intro hall
        have hnow := hall [] List.nil_prefix
        rw [List.append_nil] at hnow
        refine ⟨hnow, fun pre hpre => ?_⟩
        rw [List.append_assoc, List.singleton_append]
        exact hall (n :: pre) (List.cons_prefix_cons.mpr ⟨rfl, hpre⟩)

end Indentation

/-! ### The guard -/

section Guard

variable {source : List Char}

/-- **The guard** bounds the indentation levels, and the bracket depth with the comments taken for
    text. -/
theorem validateStructuralNesting_eq_ok : validateStructuralNesting source = .ok () ↔
    IndentationBounded source ∧ DepthBounded (unmarked source) := by
  have hindentation := @Opened.indentationBounded_iff [] [] opened_nil (lines source)
  have hbrackets := @bracketsBounded_eq_true source 0 none false (Nat.zero_le _) (fun _ => rfl)
  simp only [List.length_nil, Nat.zero_le, true_and, List.nil_append] at hindentation
  unfold IndentationBounded DepthBounded Scanner.init
  rw [← hindentation, ← hbrackets, ← Bool.and_eq_true]
  unfold validateStructuralNesting
  split
  · next h => simp [h]
  · next h => simp [h]

/-- What the guard has to bound: the depth outside of comment-only lines, and the levels. -/
structure NestingBounded (source : List Char) : Prop where
  depth : DepthBounded (marked source)
  indentation : IndentationBounded source

/-- Texts that pass the guard are not nested too deep. -/
def Guarded (source : List Char) : Prop :=
  validateStructuralNesting source = .ok () → NestingBounded source

/-- What stands on comment-only lines, quoted strings apart, is neither a quote nor a closing
    bracket. -/
def CommentsSilent (text : List (Char × Bool)) (s : Scanner) : Prop :=
  ∀ pre c, pre ++ [(c, true)] <+: text → (pre.foldl Scanner.next s).quote = none →
    c ∉ ['\'', '"', ']', '}']

/-- The scanner `t`, which takes comments for text, is in the same string and as deep at least. -/
structure Covers (t s : Scanner) : Prop where
  quote : t.quote = s.quote
  escaped : t.escaped = s.escaped
  depth : s.depth ≤ t.depth

theorem Covers.next {t s : Scanner} (h : Covers t s) {c : Char} {comment : Bool}
    (hsilent : comment = true → s.quote = none → c ∉ ['\'', '"', ']', '}']) :
    Covers (t.next (c, false)) (s.next (c, comment)) := by
  obtain ⟨depth, quote, escaped⟩ := s
  obtain ⟨depth', quote', escaped'⟩ := t
  obtain ⟨hquote, hescaped, hdepth⟩ := h
  dsimp only at hquote hescaped hdepth
  subst hquote hescaped
  cases quote' with
  | some delimiter =>
    -- inside a string comments are text for both
    unfold Scanner.next
    dsimp only
    split
    · exact ⟨rfl, rfl, hdepth⟩
    split
    · exact ⟨rfl, rfl, hdepth⟩
    · exact ⟨rfl, rfl, hdepth⟩
  | none =>
    unfold Scanner.next
    simp only [Bool.false_eq_true, if_false]
    cases comment with
    | true =>
      have hc := hsilent rfl rfl
      simp only [List.mem_cons, List.not_mem_nil, or_false, not_or] at hc
      obtain ⟨hsingle, hdouble, hsquare, hcurly⟩ := hc
      rw [if_neg (by tauto), if_pos rfl]
      by_cases hopen : c = '[' ∨ c = '{'
      · rw [if_pos hopen]
        exact ⟨rfl, rfl, hdepth.trans (Nat.le_succ _)⟩
      · rw [if_neg hopen, if_neg (by tauto)]
        exact ⟨rfl, rfl, hdepth⟩
    | false =>
      simp only [Bool.false_eq_true, if_false]
      by_cases hquote : c = '\'' ∨ c = '"'
      · rw [if_pos hquote, if_pos hquote]
        exact ⟨rfl, rfl, hdepth⟩
      rw [if_neg hquote, if_neg hquote]
      by_cases hopen : c = '[' ∨ c = '{'
      · rw [if_pos hopen, if_pos hopen]
        exact ⟨rfl, rfl, Nat.succ_le_succ hdepth⟩
      rw [if_neg hopen, if_neg hopen]
      by_cases hclose : c = ']' ∨ c = '}'
      · rw [if_pos hclose, if_pos hclose]
        exact ⟨rfl, rfl, Nat.sub_le_sub_right hdepth 1⟩
      · rw [if_neg hclose, if_neg hclose]
        exact ⟨rfl, rfl, hdepth⟩

/-- Over silent comments the depth with the comments is the larger one. -/
theorem Covers.within {t s : Scanner} (h : Covers t s) {text : List (Char × Bool)}
    (hsilent : CommentsSilent text s) (hwithin : t.Within (text.map fun c => (c.1, false))) :
    s.Within text := by
  induction text generalizing t s with
  | nil =>
    rw [List.map_nil, Scanner.within_nil] at hwithin
    exact Scanner.within_nil.mpr (h.depth.trans hwithin)
  | cons c text ih =>
    obtain ⟨c, comment⟩ := c
    rw [List.map_cons, Scanner.within_cons] at hwithin
    rw [Scanner.within_cons]
    have hnext : Covers (t.next (c, false)) (s.next (c, comment)) := by
      refine h.next (fun hcomment hquote => ?_)
      subst hcomment
      exact hsilent [] c (by simp) hquote
    refine ⟨h.depth.trans hwithin.1, ih hnext (fun pre c' hpre hquote => ?_) hwithin.2⟩
    exact hsilent ((c, comment) :: pre) c' (List.cons_prefix_cons.mpr ⟨rfl, hpre⟩) hquote

theorem map_marked (source : List Char) :
    (marked source).map (fun c => (c.1, false)) = unmarked source := by
  have hline : ∀ line : List Char, (line.map (·, isCommentLine line)).map (fun c => (c.1, false)) =
      line.map (·, false) := by
    intro line
    rw [List.map_map]
    rfl
  unfold marked unmarked
  rw [List.map_flatMap, List.flatMap_congr (fun line _ => hline line), ← List.map_flatMap,
    List.flatMap_id', flatten_splitInclusive]

end Guard

end Rationale.Docs
