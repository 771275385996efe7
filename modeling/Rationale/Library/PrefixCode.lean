import Mathlib.Data.List.Infix
import Mathlib.Logic.Function.Basic

namespace Rationale.Library

/-!
# Prefix codes

Texts that can be read off the front of any longer text.

* `PrefixCode` — a text determines its value and what follows it;
* `prefixCode_iff`, `prefixCode_of_read` — no text continues the text of another value, and what a
  reader can read back;
* `optional`, `PrefixCode.optional_append` — a part that may be absent, before a rest that does not
  start like it;
* `PrefixCode.flatMap_stop` — a sequence of texts up to a stop symbol.
-/

variable {α β σ : Type*}

/-- What follows a text, and the value it stands for, can be read back. -/
def PrefixCode (enc : α → List σ) : Prop :=
  ∀ a b rest rest', enc a ++ rest = enc b ++ rest' → a = b ∧ rest = rest'

/-- A part with a tag before it, or nothing. -/
def optional (tag : List σ) (enc : α → List σ) : Option α → List σ
  | none => []
  | some a => tag ++ enc a

variable {enc : α → List σ}

theorem PrefixCode.injective (h : PrefixCode enc) : Function.Injective enc := by
  intro a b heq
  have happend : enc a ++ [] = enc b ++ [] := by rw [heq]
  exact (h a b [] [] happend).1

/-- Codes whose texts do not continue each other. -/
theorem prefixCode_iff : PrefixCode enc ↔ ∀ a b, enc a <+: enc b → a = b := by
  constructor
  · rintro h a b ⟨rest, heq⟩
    have happend : enc a ++ rest = enc b ++ [] := by rw [heq, List.append_nil]
    exact (h a b rest [] happend).1
  · intro h a b rest rest' heq
    have hleft : enc a <+: enc b ++ rest' := heq ▸ List.prefix_append _ _
    -- two beginnings of one text continue each other
    have hsame : a = b := by
      rcases List.prefix_or_prefix_of_prefix hleft (List.prefix_append _ _) with hab | hba
      · exact h a b hab
      · exact (h b a hba).symm
    subst hsame
    exact ⟨rfl, List.append_cancel_left heq⟩

/-- A reader makes a prefix code. -/
theorem prefixCode_of_read {read : List σ → Option (α × List σ)}
    (h : ∀ a rest, read (enc a ++ rest) = some (a, rest)) : PrefixCode enc := by
  intro a b rest rest' heq
  have hread : some (a, rest) = some (b, rest') := by rw [← h a rest, heq, h b rest']
  exact Prod.mk.inj (Option.some.inj hread)

/-- Fewer values, or the same ones under other names. -/
theorem PrefixCode.comap (h : PrefixCode enc) {f : β → α} (hf : Function.Injective f) :
    PrefixCode (fun b => enc (f b)) := by
  intro b b' rest rest' heq
  obtain ⟨hvalue, hrest⟩ := h _ _ _ _ heq
  exact ⟨hf hvalue, hrest⟩

/-- An optional part is read by its tag. -/
theorem PrefixCode.optional_append (h : PrefixCode enc) {tag : List σ} {a b : Option α}
    {rest rest' : List σ} (hrest : ¬ tag <+: rest) (hrest' : ¬ tag <+: rest')
    (heq : optional tag enc a ++ rest = optional tag enc b ++ rest') : a = b ∧ rest = rest' := by
  cases a with
  | none =>
    cases b with
    | none => exact ⟨rfl, heq⟩
    | some b =>
      -- the rest of the left side would start with the tag
      have htag : tag ++ (enc b ++ rest') = rest := by
        rw [← List.append_assoc]
        exact heq.symm
      exact absurd ⟨_, htag⟩ hrest
  | some a =>
    cases b with
    | none =>
      -- and here that of the right side
      have htag : tag ++ (enc a ++ rest) = rest' := by
        rw [← List.append_assoc]
        exact heq
      exact absurd ⟨_, htag⟩ hrest'
    | some b =>
      have hvalue : tag ++ (enc a ++ rest) = tag ++ (enc b ++ rest') := by
        rw [← List.append_assoc, ← List.append_assoc]
        exact heq
      obtain ⟨rfl, hsame⟩ := h a b _ _ (List.append_cancel_left hvalue)
      exact ⟨rfl, hsame⟩

/-- A sequence of texts is read up to a symbol with which none of them starts. -/
theorem PrefixCode.flatMap_stop (h : PrefixCode enc) {stop : σ}
    (hstop : ∀ a, ∃ c rest, enc a = c :: rest ∧ c ≠ stop) :
    PrefixCode (fun values : List α => values.flatMap enc ++ [stop]) := by
  intro values
  -- a text starts with another symbol than the stop, so both lists end together
  induction values with
  | nil =>
    intro values' rest rest' heq
    cases values' with
    | nil => exact ⟨rfl, List.append_cancel_left heq⟩
    | cons a values' =>
      obtain ⟨c, tail, hc, hne⟩ := hstop a
      simp only [List.flatMap_nil, List.flatMap_cons, hc, List.nil_append, List.cons_append,
        List.cons.injEq] at heq
      exact absurd heq.1.symm hne
  | cons a values ih =>
    intro values' rest rest' heq
    cases values' with
    | nil =>
      obtain ⟨c, tail, hc, hne⟩ := hstop a
      simp only [List.flatMap_nil, List.flatMap_cons, hc, List.nil_append, List.cons_append,
        List.cons.injEq] at heq
      exact absurd heq.1 hne
    | cons b values' =>
      simp only [List.flatMap_cons, List.append_assoc] at heq
      obtain ⟨rfl, hmore⟩ := h a b _ _ heq
      obtain ⟨rfl, hrest⟩ := ih values' rest rest' (by simpa only [List.append_assoc] using hmore)
      exact ⟨rfl, hrest⟩

end Rationale.Library
