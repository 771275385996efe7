import Rationale.Library.Enumerate

namespace Rationale.Library

open Relation

/-!
# Depth-first traversal with a stack

A loop that takes an item from the top of a stack and puts its children there in its place.

* `Taken` — the items taken so far, and the stack then;
* `Taken.below_iff` — what the stack reaches has been taken, or is still reached;
* `Taken.nodup` — over a forest nothing is taken twice;
* `length_le_of_encard_le`, `encard_le_of_mem_iff` — what is taken without repetition, counted.
-/

variable {α : Type*} {children : α → List α} {stack taken rest : List α}

/-- The items that are taken from a stack, in order, and the stack that is left. -/
inductive Taken (children : α → List α) (stack : List α) : List α → List α → Prop where
  | start : Taken children stack [] stack
  | take {taken rest : List α} {item : α} (h : Taken children stack taken (item :: rest)) :
      Taken children stack (taken ++ [item]) (children item ++ rest)

/-- The top of the stack is taken first. -/
theorem Taken.cons {item : α} {stack : List α}
    (h : Taken children (children item ++ stack) taken rest) :
    Taken children (item :: stack) (item :: taken) rest := by
  induction h with
  | start => exact Taken.take .start
  | take h ih => exact ih.take

theorem below_append (l l' : List α) (b : α) :
    b ∈ Below children (l ++ l') ↔ b ∈ Below children l ∨ b ∈ Below children l' := by
  simp [Below, or_and_right, exists_or]

/-- A stack reaches its top, and what the children of the top and the rest reach. -/
theorem below_cons_iff {item b : α} :
    b ∈ Below children (item :: rest) ↔ b = item ∨ b ∈ Below children (children item ++ rest) := by
  rw [below_append, ← List.singleton_append, below_append, ← or_assoc]
  apply or_congr_left
  constructor
  · rintro ⟨a, ha, hab⟩
    rw [List.mem_singleton.mp ha] at hab
    exact reflTransGen_childOf_iff.mp hab
  · intro h
    exact ⟨item, List.mem_singleton_self item, reflTransGen_childOf_iff.mpr h⟩

/-- **Traversal is reachability.** What a stack reaches has been taken, or is reached by the stack that
    is left. -/
theorem Taken.below_iff (h : Taken children stack taken rest) (b : α) :
    b ∈ Below children stack ↔ b ∈ taken ∨ b ∈ Below children rest := by
  induction h with
  | start => simp
  | take h ih =>
    rw [ih, below_cons_iff, List.mem_append, List.mem_singleton]
    tauto

/-! ### Forests -/

section Forest

variable {level : α → Nat}

/-- Whether items are unrelated does not depend on their order. -/
theorem Unrelated.perm {l l' : List α} (h : Unrelated children l) (hperm : l.Perm l') :
    Unrelated children l' where
  nodup := hperm.nodup_iff.mp h.nodup
  apart a ha b hb := h.apart a (hperm.mem_iff.mpr ha) b (hperm.mem_iff.mpr hb)

/-- Over a forest the items on the stack stay unrelated, and reach nothing that was taken. -/
theorem Taken.unrelated (h : Taken children stack taken rest) (hforest : Forest children level)
    (hstack : Unrelated children stack) :
    Unrelated children rest ∧ ∀ a ∈ rest, ∀ b ∈ taken, ¬ ReflTransGen (ChildOf children) a b := by
  induction h with
  | start => exact ⟨hstack, by simp⟩
  | @take taken rest item h ih =>
    obtain ⟨hunrelated, hapart⟩ := ih
    have hperm : (rest ++ children item).Perm (children item ++ rest) := List.perm_append_comm
    refine ⟨(hunrelated.next hforest).perm hperm, fun a ha b hb hreach => ?_⟩
    rcases List.mem_append.mp hb with hb | hb
    · -- what reached an item before would have been reached from the top
      rcases List.mem_append.mp ha with ha | ha
      · exact hapart item List.mem_cons_self b hb (ReflTransGen.head ha hreach)
      · exact hapart a (List.mem_cons_of_mem item ha) b hb hreach
    · rw [List.mem_singleton.mp hb] at hreach
      exact hunrelated.not_reached hforest (hperm.mem_iff.mpr ha) hreach

/-- **No repetition.** -/
theorem Taken.nodup (h : Taken children stack taken rest) (hforest : Forest children level)
    (hstack : Unrelated children stack) : taken.Nodup := by
  induction h with
  | start => exact List.nodup_nil
  | @take taken rest item h ih =>
    obtain ⟨-, hapart⟩ := h.unrelated hforest hstack
    refine List.nodup_append.mpr ⟨ih, List.nodup_singleton item, ?_⟩
    rintro a ha b hb rfl
    rw [List.mem_singleton.mp hb] at ha
    exact hapart item List.mem_cons_self item ha ReflTransGen.refl

end Forest

/-! ### Counting -/

section Counting

variable {s : Set α} {l : List α} {bound : Nat}

/-- A list without repetitions in a bounded set is bounded. -/
theorem length_le_of_encard_le (hs : s.encard ≤ bound) (hl : l.Nodup) (h : ∀ a ∈ l, a ∈ s) :
    l.length ≤ bound := by
  classical
  have hsubset : (↑l.toFinset : Set α) ⊆ s := by
    intro a ha
    rw [List.coe_toFinset] at ha
    exact h a ha
  have hcard := (Set.encard_le_encard hsubset).trans hs
  rw [Set.encard_coe_eq_coe_finsetCard, List.toFinset_card_of_nodup hl] at hcard
  exact_mod_cast hcard

/-- A set with the elements of a list has no more of them. -/
theorem encard_le_of_mem_iff (h : ∀ a, a ∈ s ↔ a ∈ l) (hl : l.length ≤ bound) : s.encard ≤ bound := by
  classical
  have hset : s = ↑l.toFinset := by
    ext a
    rw [List.coe_toFinset]
    exact h a
  rw [hset, Set.encard_coe_eq_coe_finsetCard]
  exact_mod_cast (List.toFinset_card_le l).trans hl

end Counting

end Rationale.Library
