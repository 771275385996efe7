import Mathlib.Data.List.Induction
import Mathlib.Logic.Function.Basic

namespace Rationale.Library

/-!
# Processes that share a state

A pool of processes, each with its own local state, takes turns on one shared state.

* `Pool`, `step`, `run` — a turn of one process, and a schedule of turns;
* `run_keeps` — an invariant kept by every turn holds after every schedule;
* `exists_order` — if a process changes the shared state in one turn at most, the shared state is
  that of performing those changes one after the other;
* `exists_turn` — a process's local state is what one of its own turns made of it;
* `exists_moment` — if a process draws its conclusion from the shared state before one of its own
  turns, there is such a turn in the schedule.
-/

variable {ι τ σ π : Type} [DecidableEq ι]

/-- A shared state, and the local state of each process. -/
structure Pool (ι σ π : Type) where
  shared : σ
  locals : ι → π

namespace Pool

/-- What a turn of a process makes of the shared state and of its own. -/
abbrev Move (ι τ σ π : Type) := Pool ι σ π → ι → τ → σ × π

variable (move : Move ι τ σ π)

/-- One turn. -/
def step (pool : Pool ι σ π) (turn : ι × τ) : Pool ι σ π where
  shared := (move pool turn.1 turn.2).1
  locals := Function.update pool.locals turn.1 (move pool turn.1 turn.2).2

/-- The turns of a schedule, one after the other. -/
def run (pool : Pool ι σ π) (schedule : List (ι × τ)) : Pool ι σ π := schedule.foldl (step move) pool

section Step

variable {move} {pool : Pool ι σ π} {turn : ι × τ} {i j : ι}

@[simp] theorem step_shared : (pool.step move turn).shared = (move pool turn.1 turn.2).1 := rfl

@[simp] theorem step_locals_self :
    (pool.step move turn).locals turn.1 = (move pool turn.1 turn.2).2 := by
  simp [step]

theorem step_locals_ne (h : j ≠ turn.1) : (pool.step move turn).locals j = pool.locals j := by
  simp [step, h]

/-- What holds of the process that moved, and of the others as before, holds of all. -/
theorem forall_step {p : ι → π → Prop} (hself : p turn.1 (move pool turn.1 turn.2).2)
    (hothers : ∀ j, j ≠ turn.1 → p j (pool.locals j)) (j : ι) :
    p j ((pool.step move turn).locals j) := by
  by_cases hj : j = turn.1
  · obtain rfl := hj
    rwa [step_locals_self]
  · rw [step_locals_ne hj]
    exact hothers j hj

end Step

@[simp] theorem run_nil (pool : Pool ι σ π) : pool.run move [] = pool := rfl

@[simp] theorem run_concat (pool : Pool ι σ π) (schedule : List (ι × τ)) (turn : ι × τ) :
    pool.run move (schedule ++ [turn]) = (pool.run move schedule).step move turn := by
  simp [run, List.foldl_append]

variable {move} {inv : Pool ι σ π → Prop} {pool : Pool ι σ π}

/-- **Invariants**: what every turn keeps holds after every schedule. -/
theorem run_keeps (hstep : ∀ p turn, inv p → inv (p.step move turn)) (h : inv pool)
    (schedule : List (ι × τ)) : inv (pool.run move schedule) := by
  induction schedule using List.reverseRecOn with
  | nil => exact h
  | append_singleton schedule turn ih =>
    rw [run_concat]
    exact hstep _ turn ih

/-! ### One process among the others -/

/-- **The last change**: a local state that is not the initial one was made by a turn of the process
    itself, and has not changed since. -/
theorem exists_turn {i : ι} {schedule : List (ι × τ)}
    (h : (pool.run move schedule).locals i ≠ pool.locals i) :
    ∃ before turn after, schedule = before ++ (i, turn) :: after ∧
      (pool.run move before).locals i ≠ (pool.run move schedule).locals i ∧
        (move (pool.run move before) i turn).2 = (pool.run move schedule).locals i := by
  induction schedule using List.reverseRecOn with
  | nil => exact absurd rfl h
  | append_singleton schedule turn ih =>
    rw [run_concat] at h ⊢
    by_cases hsame : ((pool.run move schedule).step move turn).locals i =
        (pool.run move schedule).locals i
    · -- the last turn did not change it
      rw [hsame] at h ⊢
      obtain ⟨before, t, after, rfl, hold, hnew⟩ := ih h
      exact ⟨before, t, after ++ [turn], by simp, hold, hnew⟩
    · have hi : i = turn.1 := by
        by_contra hne
        exact hsame (step_locals_ne hne)
      subst hi
      refine ⟨schedule, turn.2, [], rfl, fun heq => hsame heq.symm, ?_⟩
      rw [step_locals_self]

/-! ### The order of the changes -/

/-- Processes perform their operations one after the other. -/
inductive Serial (performs : ι → σ → σ → Prop) (s : σ) : List ι → σ → Prop where
  | nil : Serial performs s [] s
  | snoc {order : List ι} {t u : σ} {i : ι} (h : Serial performs s order t)
      (hi : performs i t u) : Serial performs s (order ++ [i]) u

omit [DecidableEq ι] in
/-- Only the operations of the processes in the order matter. -/
theorem Serial.congr {performs performs' : ι → σ → σ → Prop} {s t : σ} {order : List ι}
    (h : Serial performs s order t)
    (himp : ∀ i ∈ order, ∀ s t, performs i s t → performs' i s t) : Serial performs' s order t := by
  induction h with
  | nil => exact Serial.nil
  | @snoc order t u i _ hi ih =>
    have hprior : Serial performs' s order t :=
      ih (fun j hj => himp j (List.mem_append_left _ hj))
    exact hprior.snoc (himp i (by simp) t u hi)

/-- **The shared state** is that of performing the operations of those processes that have performed
    theirs, in some order. -/
theorem exists_order {performed : π → Prop} {performs : π → σ → σ → Prop}
    (hkeep : ∀ p turn, inv p → inv (p.step move turn))
    (hdone : ∀ p (i : ι) (t : τ), performed (p.locals i) → move p i t = (p.shared, p.locals i))
    (hmove : ∀ p (i : ι) (t : τ), inv p → ¬ performed (p.locals i) →
      ((move p i t).1 = p.shared ∧ ¬ performed (move p i t).2) ∨
        (performed (move p i t).2 ∧ performs (move p i t).2 p.shared (move p i t).1))
    (h : inv pool) (hnone : ∀ i, ¬ performed (pool.locals i)) (schedule : List (ι × τ)) :
    ∃ order : List ι, order.Nodup ∧
      (∀ i, i ∈ order ↔ performed ((pool.run move schedule).locals i)) ∧
        Serial (fun i => performs ((pool.run move schedule).locals i)) pool.shared order
          (pool.run move schedule).shared := by
  induction schedule using List.reverseRecOn with
  | nil => exact ⟨[], List.nodup_nil, fun i => by simp [hnone i], Serial.nil⟩
  | append_singleton schedule turn ih =>
    obtain ⟨order, hnodup, hmem, hserial⟩ := ih
    have hinv := run_keeps hkeep h schedule
    rw [run_concat]
    generalize pool.run move schedule = p at hmem hserial hinv ⊢
    -- the processes that have performed their operations keep their local states
    have hkept : turn.1 ∉ order → Serial (fun i => performs ((p.step move turn).locals i))
        pool.shared order p.shared := by
      intro hnew
      refine hserial.congr (fun i hi s t hperforms => ?_)
      rwa [step_locals_ne (fun heq => hnew (heq ▸ hi))]
    by_cases hold : performed (p.locals turn.1)
    · have hstep : p.step move turn = p := by
        unfold step
        rw [hdone p turn.1 turn.2 hold, Function.update_eq_self]
      rw [hstep]
      exact ⟨order, hnodup, hmem, hserial⟩
    have hnew : turn.1 ∉ order := fun hi => hold ((hmem turn.1).mp hi)
    rcases hmove p turn.1 turn.2 hinv hold with ⟨hsame, hnot⟩ | ⟨hnow, hperforms⟩
    · -- the turn changes nothing that is shared
      refine ⟨order, hnodup, ?_, ?_⟩
      · refine forall_step (p := fun i l => i ∈ order ↔ performed l) ?_ (fun j _ => hmem j)
        exact iff_of_false hnew hnot
      · rw [step_shared, hsame]
        exact hkept hnew
    · -- the turn performs the process's operation
      refine ⟨order ++ [turn.1], ?_, ?_, ?_⟩
      · rw [List.nodup_append]
        refine ⟨hnodup, by simp, fun a ha b hb heq => hnew ?_⟩
        rwa [← List.mem_singleton.mp hb, ← heq]
      · refine forall_step (p := fun i l => i ∈ order ++ [turn.1] ↔ performed l) ?_ ?_
        · exact iff_of_true (by simp) hnow
        · intro j hj
          rw [List.mem_append, hmem j, List.mem_singleton]
          exact or_iff_left hj
      · refine (hkept hnew).snoc ?_
        rw [step_locals_self]
        exact hperforms

/-! ### The moment of a conclusion -/

/-- **The moment**: a process that has drawn a conclusion did so from the shared state right before
    one of its own turns, whatever happened since. -/
theorem exists_moment {later : σ → σ → Prop} {free : ι → π → Prop} {pinned : ι → σ → π → Prop}
    (hkeep : ∀ p turn, inv p → inv (p.step move turn))
    (htrans : ∀ {s t u}, later s t → later t u → later s u)
    (hlater : ∀ p (i : ι) (t : τ), inv p → later p.shared (move p i t).1)
    (hfree : ∀ p (i : ι) (t : τ), inv p → free i (p.locals i) →
      free i (move p i t).2 ∨ pinned i p.shared (move p i t).2)
    (hpinned : ∀ p (i : ι) (t : τ) s, inv p → later s p.shared → pinned i s (p.locals i) →
      pinned i s (move p i t).2)
    (h : inv pool) (hstart : ∀ i, free i (pool.locals i)) (schedule : List (ι × τ)) (i : ι) :
    free i ((pool.run move schedule).locals i) ∨
      ∃ before turn after, schedule = before ++ (i, turn) :: after ∧
        later (pool.run move before).shared (pool.run move schedule).shared ∧
          pinned i (pool.run move before).shared ((pool.run move schedule).locals i) := by
  induction schedule using List.reverseRecOn with
  | nil => exact Or.inl (hstart i)
  | append_singleton schedule turn ih =>
    have hinv := run_keeps hkeep h schedule
    have hgrows := hlater _ turn.1 turn.2 hinv
    rw [run_concat]
    by_cases hi : i = turn.1
    · obtain rfl := hi
      rw [step_locals_self]
      rcases ih with hfreed | ⟨before, t, after, rfl, hbefore, hpin⟩
      · rcases hfree _ _ turn.2 hinv hfreed with hstill | hnow
        · exact Or.inl hstill
        · exact Or.inr ⟨schedule, turn.2, [], rfl, hgrows, hnow⟩
      · refine Or.inr ⟨before, t, after ++ [turn], by simp, htrans hbefore hgrows, ?_⟩
        exact hpinned _ _ _ _ hinv hbefore hpin
    · -- a turn of another process
      rw [step_locals_ne hi]
      rcases ih with hfreed | ⟨before, t, after, rfl, hbefore, hpin⟩
      · exact Or.inl hfreed
      · exact Or.inr ⟨before, t, after ++ [turn], by simp, htrans hbefore hgrows, hpin⟩

end Pool

end Rationale.Library
