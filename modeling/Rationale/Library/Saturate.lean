import Mathlib.Data.List.Nodup
import Mathlib.Data.List.Dedup
import Mathlib.Data.List.Perm.Subperm
import Mathlib.Logic.Relation

namespace Rationale.Library

open Relation

/-!
# Saturation by a worklist

The least set that contains some seeds and is closed under a finitely branching step, computed the
way a recursive query with duplicate elimination computes it: rows are taken from a queue, and the
rows they lead to join the queue unless they were seen before.

* `saturateFrom next fuel queue seen` — at most `fuel` rows are taken;
* `mem_saturate` — with fuel for every row of a finite list the result is exactly what the
  seeds reach.
-/

variable {α : Type*} [DecidableEq α] (next : α → List α)

/-- The rows that `item` adds: its successors that were not seen before, once each. -/
def freshNext (seen : List α) (item : α) : List α :=
  ((next item).filter (fun a => a ∉ seen)).dedup

/-- Take rows from the queue, at most `fuel` of them, and add what they lead to. -/
def saturateFrom : Nat → List α → List α → List α
  | 0, _, seen => seen
  | _ + 1, [], seen => seen
  | fuel + 1, item :: queue, seen =>
      saturateFrom fuel (queue ++ freshNext next seen item) (seen ++ freshNext next seen item)

/-- Everything the seeds reach, when `fuel` is large enough. -/
def saturate (fuel : Nat) (seeds : List α) : List α :=
  saturateFrom next fuel seeds.dedup seeds.dedup

variable {next}

theorem mem_freshNext {seen : List α} {item a : α} :
    a ∈ freshNext next seen item ↔ a ∈ next item ∧ a ∉ seen := by
  simp [freshNext]

/-- Rows only join: what was seen stays, and new rows are reached from the queue. -/
theorem saturateFrom_sound {fuel : Nat} {queue seen : List α} (hqueue : queue ⊆ seen) {a : α}
    (h : a ∈ saturateFrom next fuel queue seen) :
    ∃ s ∈ seen, ReflTransGen (fun x y => y ∈ next x) s a := by
  induction fuel generalizing queue seen with
  | zero => exact ⟨a, h, ReflTransGen.refl⟩
  | succ fuel ih =>
    cases queue with
    | nil => exact ⟨a, h, ReflTransGen.refl⟩
    | cons item queue =>
      have hsub : queue ++ freshNext next seen item ⊆ seen ++ freshNext next seen item :=
        List.append_subset.mpr
          ⟨fun b hb => List.mem_append_left _ (hqueue (List.mem_cons_of_mem _ hb)),
            List.subset_append_right _ _⟩
      obtain ⟨s, hs, hsa⟩ := ih hsub h
      rcases List.mem_append.mp hs with hs | hs
      · exact ⟨s, hs, hsa⟩
      · have hitem := hqueue List.mem_cons_self
        exact ⟨item, hitem, ReflTransGen.head (mem_freshNext.mp hs).1 hsa⟩

/-- With fuel for the rows not yet taken, the result contains what was seen and is closed. -/
theorem saturateFrom_closed {rows : List α} (hclosed : ∀ a ∈ rows, next a ⊆ rows)
    {fuel : Nat} {queue seen : List α} (hnodup : seen.Nodup) (hseen : seen ⊆ rows)
    (hqueue : queue ⊆ seen) (hdone : ∀ a ∈ seen, a ∉ queue → next a ⊆ seen)
    (hfuel : rows.length + queue.length ≤ fuel + seen.length) :
    seen ⊆ saturateFrom next fuel queue seen ∧
      ∀ a ∈ saturateFrom next fuel queue seen, next a ⊆ saturateFrom next fuel queue seen := by
  induction fuel generalizing queue seen with
  | zero =>
    -- what is seen is bounded by the rows, so no fuel left means an empty queue
    have hle : seen.length ≤ rows.length := (hnodup.subperm hseen).length_le
    obtain rfl : queue = [] := List.length_eq_zero_iff.mp (by omega)
    exact ⟨List.Subset.refl _, fun a ha => hdone a ha List.not_mem_nil⟩
  | succ fuel ih =>
    cases queue with
    | nil => exact ⟨List.Subset.refl _, fun a ha => hdone a ha List.not_mem_nil⟩
    | cons item queue =>
      have hitem : item ∈ seen := hqueue List.mem_cons_self
      have hfresh : freshNext next seen item ⊆ rows :=
        fun a ha => hclosed item (hseen hitem) (mem_freshNext.mp ha).1
      have hdisj : ∀ a ∈ seen, ∀ b ∈ freshNext next seen item, a ≠ b := by
        rintro a ha b hb rfl
        exact (mem_freshNext.mp hb).2 ha
      have hnodup' : (seen ++ freshNext next seen item).Nodup :=
        List.nodup_append.mpr ⟨hnodup, List.nodup_dedup _, hdisj⟩
      have hqueue' : queue ++ freshNext next seen item ⊆ seen ++ freshNext next seen item :=
        List.append_subset.mpr
          ⟨fun b hb => List.mem_append_left _ (hqueue (List.mem_cons_of_mem _ hb)),
            List.subset_append_right _ _⟩
      have hdone' : ∀ a ∈ seen ++ freshNext next seen item,
          a ∉ queue ++ freshNext next seen item → next a ⊆ seen ++ freshNext next seen item := by
        intro a ha hnot b hb
        rw [List.mem_append, not_or] at hnot
        have haseen : a ∈ seen := (List.mem_append.mp ha).resolve_right hnot.2
        -- the item just taken has its successors in what was seen or in what is fresh
        by_cases hitem' : a = item
        · subst hitem'
          by_cases hbs : b ∈ seen
          · exact List.mem_append_left _ hbs
          · exact List.mem_append_right _ (mem_freshNext.mpr ⟨hb, hbs⟩)
        · exact List.mem_append_left _ (hdone a haseen (by simp [hitem', hnot.1]) hb)
      obtain ⟨hsub, hres⟩ := ih hnodup' (List.append_subset.mpr ⟨hseen, hfresh⟩) hqueue' hdone'
        (by simp only [List.length_append, List.length_cons] at hfuel ⊢; omega)
      exact ⟨fun a ha => hsub (List.mem_append_left _ ha), hres⟩

/-- **Saturation is reachability.** With fuel for a finite list of rows that holds the seeds and is
    closed under the step, `saturate` returns exactly what the seeds reach. -/
theorem mem_saturate {rows : List α} (hclosed : ∀ a ∈ rows, next a ⊆ rows)
    {fuel : Nat} {seeds : List α} (hseeds : seeds ⊆ rows) (hfuel : rows.length ≤ fuel)
    {a : α} :
    a ∈ saturate next fuel seeds ↔ ∃ s ∈ seeds, ReflTransGen (fun x y => y ∈ next x) s a := by
  have hsub : seeds.dedup ⊆ rows := fun b hb => hseeds (List.mem_dedup.mp hb)
  obtain ⟨hseen, hres⟩ := saturateFrom_closed hclosed (List.nodup_dedup seeds) hsub
    (List.Subset.refl _) (fun a ha hnot => absurd ha hnot)
    (Nat.add_le_add_right hfuel _)
  constructor
  · intro h
    obtain ⟨s, hs, hsa⟩ := saturateFrom_sound (List.Subset.refl _) h
    exact ⟨s, List.mem_dedup.mp hs, hsa⟩
  · rintro ⟨s, hs, hsa⟩
    induction hsa with
    | refl => exact hseen (List.mem_dedup.mpr hs)
    | tail _ hstep ih => exact hres _ ih hstep

/-- The result lists every row once. -/
theorem saturate_nodup {fuel : Nat} {seeds : List α} : (saturate next fuel seeds).Nodup := by
  have h : ∀ fuel (queue seen : List α), seen.Nodup → (saturateFrom next fuel queue seen).Nodup := by
    intro fuel
    induction fuel with
    | zero => exact fun _ _ h => h
    | succ fuel ih =>
      intro queue seen hseen
      cases queue with
      | nil => exact hseen
      | cons item queue =>
        refine ih _ _ (List.nodup_append.mpr ⟨hseen, List.nodup_dedup _, ?_⟩)
        rintro a ha b hb rfl
        exact (mem_freshNext.mp hb).2 ha
  exact h _ _ _ (List.nodup_dedup _)

end Rationale.Library
