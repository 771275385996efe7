import Mathlib.Data.List.Basic
import Mathlib.Data.List.Forall2
import Mathlib.Logic.Relation

namespace Rationale.Library

/-!
# Sequences of fallible steps

A loop `for a in l { state = step(state, a)?; }` is `l.foldlM step`.  When the outcome of one step
is known (it succeeds exactly under a condition, with a known effect), so is that of the loop.

* `bind_eq_ok`, `bind_eq_error`, `map_eq_ok`, `mapError_eq_ok` — inversion of one step of a
  sequence;
* `mapM_eq_ok` — a loop that collects results succeeds iff each of its turns does;
* `FailsWith P x` — whatever a computation fails with has the property;
* `Along effect ok s l` — the condition holds at every step of the loop;
* `foldlM_eq_ok_iff` — the loop succeeds iff the condition holds along it, and then has the
  effect of `l.foldl`;
* `along_of_simulation` — the condition along one loop from that along another;
* `along_iff_forall` — for steps that do not disturb each other's condition, checking all of them
  at the start is enough;
* `reflTransGen_of_foldlM` — the loop as a run of single steps.
-/

variable {σ α β : Type} {ε : Type*}

theorem bind_eq_ok {x : Except ε α} {f : α → Except ε β} {b : β} :
    (x >>= f) = .ok b ↔ ∃ a, x = .ok a ∧ f a = .ok b := by
  cases x with
  | error e => exact ⟨(nomatch ·), fun ⟨_, h, _⟩ => nomatch h⟩
  | ok a =>
    constructor
    · exact fun h => ⟨a, rfl, h⟩
    · rintro ⟨a', h, h'⟩
      cases h
      exact h'

/-- A sequence fails in its first step, or after it. -/
theorem bind_eq_error {x : Except ε α} {f : α → Except ε β} {e : ε} :
    (x >>= f) = .error e ↔ x = .error e ∨ ∃ a, x = .ok a ∧ f a = .error e := by
  cases x with
  | error failure =>
    constructor
    · exact fun h => Or.inl (congrArg Except.error (Except.error.inj h))
    · rintro (h | ⟨a, h, -⟩)
      · exact congrArg Except.error (Except.error.inj h)
      · exact nomatch h
  | ok a =>
    constructor
    · exact fun h => Or.inr ⟨a, rfl, h⟩
    · rintro (h | ⟨b, h, h'⟩)
      · exact nomatch h
      · cases h
        exact h'

theorem map_eq_ok {x : Except ε α} {f : α → β} {b : β} :
    x.map f = .ok b ↔ ∃ a, x = .ok a ∧ f a = b := by
  cases x with
  | error e => exact ⟨(nomatch ·), fun ⟨_, h, _⟩ => nomatch h⟩
  | ok a => simp [Except.map]

/-- Renaming errors keeps the results. -/
theorem mapError_eq_ok {ε' : Type*} {x : Except ε α} {f : ε → ε'} {a : α} :
    x.mapError f = .ok a ↔ x = .ok a := by
  cases x with
  | error e => exact ⟨(nomatch ·), (nomatch ·)⟩
  | ok b => simp [Except.mapError]

/-- A loop collects the results of its turns. -/
theorem mapM_eq_ok {f : α → Except ε β} {l : List α} {bs : List β} :
    l.mapM f = .ok bs ↔ List.Forall₂ (fun a b => f a = .ok b) l bs := by
  induction l generalizing bs with
  | nil =>
    rw [List.mapM_nil, List.forall₂_nil_left_iff]
    exact ⟨fun h => (Except.ok.inj h).symm, fun h => congrArg Except.ok h.symm⟩
  | cons a l ih =>
    rw [List.mapM_cons, List.forall₂_cons_left_iff, bind_eq_ok]
    refine exists_congr (fun b => ?_)
    rw [bind_eq_ok]
    constructor
    · rintro ⟨hb, rest, hrest, h⟩
      exact ⟨rest, hb, ih.mp hrest, (Except.ok.inj h).symm⟩
    · rintro ⟨rest, hb, hrest, rfl⟩
      exact ⟨hb, rest, ih.mpr hrest, rfl⟩

/-- Whatever the computation fails with has the property. -/
def FailsWith (P : ε → Prop) (x : Except ε α) : Prop := ∀ e, x = .error e → P e

section FailsWith

variable {P : ε → Prop}

theorem failsWith_ok (a : α) : FailsWith P (.ok a) := fun _ h => nomatch h

theorem failsWith_error {e : ε} (h : P e) : FailsWith P (.error e : Except ε α) := by
  intro e' heq
  rwa [← Except.error.inj heq]

theorem FailsWith.bind {x : Except ε α} {f : α → Except ε β} (hx : FailsWith P x)
    (hf : ∀ a, FailsWith P (f a)) : FailsWith P (x >>= f) := by
  intro e h
  rcases bind_eq_error.mp h with h | ⟨a, -, h⟩
  · exact hx e h
  · exact hf a e h

theorem FailsWith.mapError {ε' : Type*} {Q : ε' → Prop} {x : Except ε α} {f : ε → ε'}
    (hx : FailsWith P x) (hf : ∀ e, P e → Q (f e)) : FailsWith Q (x.mapError f) := by
  intro e h
  cases x with
  | ok a => exact nomatch h
  | error failure =>
    obtain rfl := Except.error.inj h
    exact hf failure (hx failure rfl)

/-- A loop fails with what one of its turns fails with. -/
theorem failsWith_mapM {f : α → Except ε β} (hf : ∀ a, FailsWith P (f a)) (l : List α) :
    FailsWith P (l.mapM f) := by
  induction l with
  | nil => exact failsWith_ok []
  | cons a l ih =>
    rw [List.mapM_cons]
    exact (hf a).bind (fun b => ih.bind (fun rest => failsWith_ok (b :: rest)))

end FailsWith

/-- The condition `ok` holds at every step of the loop with the given effect. -/
def Along (effect : σ → α → σ) (ok : σ → α → Prop) : σ → List α → Prop
  | _, [] => True
  | s, a :: l => ok s a ∧ Along effect ok (effect s a) l

variable {step : σ → α → Except ε σ} {effect : σ → α → σ} {ok : σ → α → Prop}

/-- **Loops of fallible steps.** -/
theorem foldlM_eq_ok_iff (hstep : ∀ s a s', step s a = .ok s' ↔ ok s a ∧ s' = effect s a)
    {l : List α} {s s' : σ} :
    l.foldlM step s = .ok s' ↔ Along effect ok s l ∧ s' = l.foldl effect s := by
  induction l generalizing s with
  | nil =>
    show Except.ok s = .ok s' ↔ _
    simp [Along, eq_comm]
  | cons a l ih =>
    rw [List.foldlM_cons, bind_eq_ok]
    show (∃ t, step s a = .ok t ∧ l.foldlM step t = .ok s') ↔ _
    simp only [hstep, ih, Along, List.foldl_cons]
    constructor
    · rintro ⟨_, ⟨ha, rfl⟩, hl, rfl⟩
      exact ⟨⟨ha, hl⟩, rfl⟩
    · rintro ⟨⟨ha, hl⟩, rfl⟩
      exact ⟨_, ⟨ha, rfl⟩, hl, rfl⟩

/-- Conditions that later steps keep hold along the loop when they hold at its start. -/
theorem along_of_forall (hkeep : ∀ s a b, ok s b → ok (effect s a) b) {l : List α} {s : σ}
    (h : ∀ a ∈ l, ok s a) : Along effect ok s l := by
  induction l generalizing s with
  | nil => trivial
  | cons a l ih =>
    refine ⟨h a List.mem_cons_self, ih (fun b hb => ?_)⟩
    exact hkeep s a b (h b (List.mem_cons_of_mem _ hb))

/-- When every step of one loop can be followed by the other, the other's conditions hold too. -/
theorem along_of_simulation {τ : Type} {effect' : τ → α → τ} {ok' : τ → α → Prop} {R : τ → σ → Prop}
    {l : List α} (hstep : ∀ a ∈ l, ∀ t s, R t s → ok' t a → ok s a ∧ R (effect' t a) (effect s a))
    {t : τ} {s : σ} (hR : R t s) (h : Along effect' ok' t l) : Along effect ok s l := by
  induction l generalizing t s with
  | nil => trivial
  | cons a l ih =>
    obtain ⟨ha, hl⟩ := h
    obtain ⟨hok, hnext⟩ := hstep a List.mem_cons_self t s hR ha
    exact ⟨hok, ih (fun b hb => hstep b (List.mem_cons_of_mem _ hb)) hnext hl⟩

/-- Steps on unrelated items neither make nor break each other's condition. -/
theorem along_iff_forall {R : α → α → Prop}
    (hkeep : ∀ s a b, R a b → (ok (effect s a) b ↔ ok s b)) {l : List α} {s : σ}
    (hl : l.Pairwise R) : Along effect ok s l ↔ ∀ a ∈ l, ok s a := by
  induction l generalizing s with
  | nil => simp [Along]
  | cons a l ih =>
    obtain ⟨ha, htail⟩ := List.pairwise_cons.mp hl
    rw [Along, ih htail, List.forall_mem_cons]
    have hiff : (∀ b ∈ l, ok (effect s a) b) ↔ ∀ b ∈ l, ok s b := by
      constructor
      · exact fun h b hb => (hkeep s a b (ha b hb)).mp (h b hb)
      · exact fun h b hb => (hkeep s a b (ha b hb)).mpr (h b hb)
    rw [hiff]

/-- A loop that succeeds is a run of its steps. -/
theorem reflTransGen_of_foldlM {R : σ → σ → Prop} (hstep : ∀ s a s', step s a = .ok s' → R s s')
    {l : List α} {s s' : σ} (h : l.foldlM step s = .ok s') : Relation.ReflTransGen R s s' := by
  induction l generalizing s with
  | nil =>
    obtain rfl : s = s' := Except.ok.inj h
    exact Relation.ReflTransGen.refl
  | cons a l ih =>
    rw [List.foldlM_cons, bind_eq_ok] at h
    obtain ⟨t, ht, hl⟩ := h
    exact Relation.ReflTransGen.head (hstep s a t ht) (ih hl)

/-- A loop of total steps is a run of them. -/
theorem reflTransGen_of_foldl {R : σ → σ → Prop} (hstep : ∀ s a, R s (effect s a))
    (l : List α) (s : σ) : Relation.ReflTransGen R s (l.foldl effect s) := by
  induction l generalizing s with
  | nil => exact Relation.ReflTransGen.refl
  | cons a l ih => exact Relation.ReflTransGen.head (hstep s a) (ih (effect s a))

end Rationale.Library
