import Rationale.Library.Fallible

namespace Rationale.Library

/-!
# Queries of a state that changes between reads

A query reads a shared state several times, and other processes may change the state in between.

* `Query`, `eval`, `advance` — a query, its result on one state, and its next read;
* `Settled` — what is still to be read is the same on every later state;
* `ReadsOnce` — after the first read the query is settled, so its result is that of one state
  (`ReadsOnce.advance`, `Settled.advance`).
-/

variable {σ ε α β : Type}

/-- A query of a state: reads, and what is computed from them. -/
inductive Query (σ ε α : Type) where
  | done (result : Except ε α)
  /-- Wait until nobody writes. -/
  | await (next : Query σ ε α)
  | read (next : σ → Query σ ε α)

namespace Query

/-- Go on with another query; a failure ends the query. -/
def bind : Query σ ε α → (α → Query σ ε β) → Query σ ε β
  | done (.error e), _ => done (.error e)
  | done (.ok a), f => f a
  | await next, f => await (next.bind f)
  | read next, f => read fun s => (next s).bind f

instance : Monad (Query σ ε) where
  pure a := done (.ok a)
  bind := Query.bind

instance : MonadLift (Except ε) (Query σ ε) := ⟨done⟩

/-- Read the state once. -/
def ask (f : σ → Except ε α) : Query σ ε α := read fun s => done (f s)

/-- Wait for the writers, and nothing else. -/
def ready : Query σ ε Unit := await (done (.ok ()))

/-- The result when the state does not change. -/
def eval (s : σ) : Query σ ε α → Except ε α
  | done result => result
  | await next => next.eval s
  | read next => (next s).eval s

section Eval

variable {s : σ}

@[simp] theorem eval_done (result : Except ε α) : (done result : Query σ ε α).eval s = result := rfl

@[simp] theorem eval_pure (a : α) : (pure a : Query σ ε α).eval s = .ok a := rfl

@[simp] theorem eval_ask (f : σ → Except ε α) : (ask f).eval s = f s := rfl

@[simp] theorem eval_ready : (ready : Query σ ε Unit).eval s = pure () := rfl

@[simp] theorem eval_lift (x : Except ε α) : (liftM x : Query σ ε α).eval s = x := rfl

@[simp] theorem eval_bind (q : Query σ ε α) (f : α → Query σ ε β) :
    (q >>= f).eval s = (q.eval s >>= fun a => (f a).eval s) := by
  induction q with
  | done result =>
    cases result with
    | error e => rfl
    | ok a => rfl
  | await next ih => exact ih
  | read next ih => exact ih s

end Eval

/-! ### Reads on later states -/

section Later

variable (later : σ → σ → Prop)

/-- What is still to be read is on every later state what it is on this one. -/
def Settled (s : σ) : Query σ ε α → Prop
  | done _ => True
  | await next => next.Settled s
  | read next => (∀ t, later s t → next t = next s) ∧ (next s).Settled s

/-- The first read settles the query. -/
def ReadsOnce (valid : σ → Prop) : Query σ ε α → Prop
  | done _ => True
  | await next => next.ReadsOnce valid
  | read next => ∀ s, valid s → (next s).Settled later s

variable {later} {valid : σ → Prop} {s : σ}

/-- A query settles when each of its parts does. -/
theorem Settled.bind {q : Query σ ε α} {f : α → Query σ ε β} (hq : q.Settled later s)
    (hf : ∀ a, q.eval s = .ok a → (f a).Settled later s) : (q >>= f).Settled later s := by
  induction q with
  | done result =>
    cases result with
    | error e => trivial
    | ok a => exact hf a rfl
  | await next ih => exact ih hq hf
  | read next ih =>
    refine ⟨fun t ht => ?_, ih s hq.2 hf⟩
    show (next t).bind f = (next s).bind f
    rw [hq.1 t ht]

theorem settled_ask {f : σ → Except ε α} (h : ∀ t, later s t → f t = f s) :
    (ask f).Settled later s :=
  ⟨fun t ht => congrArg done (h t ht), trivial⟩

/-- A query that starts without reading reads once when the rest does. -/
theorem ReadsOnce.bind_done {result : Except ε α} {f : α → Query σ ε β}
    (hf : ∀ a, (f a).ReadsOnce later valid) :
    ((done result : Query σ ε α) >>= f).ReadsOnce later valid := by
  cases result with
  | error e => trivial
  | ok a => exact hf a

/-- A query whose first read is followed by settled ones reads once. -/
theorem ReadsOnce.bind_ask {g : σ → Except ε α} {f : α → Query σ ε β}
    (hf : ∀ s, valid s → ∀ a, g s = .ok a → (f a).Settled later s) :
    (ask g >>= f).ReadsOnce later valid := by
  intro s hs
  show ((done (g s) : Query σ ε α) >>= f).Settled later s
  exact Settled.bind trivial (fun a ha => hf s hs a ha)

/-- Renaming results changes no reads. -/
theorem ReadsOnce.bind_pure {q : Query σ ε α} (h : q.ReadsOnce later valid) (f : α → β) :
    (q >>= fun a => pure (f a)).ReadsOnce later valid := by
  induction q with
  | done result => exact ReadsOnce.bind_done (fun _ => trivial)
  | await next ih => exact ih h
  | read next ih => exact fun s hs => Settled.bind (h s hs) (fun _ _ => trivial)

end Later

/-! ### One step of a query -/

/-- The next step: wait while the state is locked, or read it. -/
def advance (locked : Bool) (s : σ) : Query σ ε α → Query σ ε α
  | done result => done result
  | await next => if locked then await next else next
  | read next => next s

section Advance

variable {later : σ → σ → Prop} {valid : σ → Prop} {s t : σ} {locked : Bool} {q : Query σ ε α}

/-- **A settled query stays settled**, and keeps its result, on every later state. -/
theorem Settled.advance (h : q.Settled later s) (ht : later s t) :
    (q.advance locked t).Settled later s ∧ (q.advance locked t).eval s = q.eval s := by
  cases q with
  | done result => exact ⟨trivial, rfl⟩
  | await next =>
    cases locked with
    | true => exact ⟨h, rfl⟩
    | false => exact ⟨h, rfl⟩
  | read next =>
    show (next t).Settled later s ∧ (next t).eval s = (next s).eval s
    rw [h.1 t ht]
    exact ⟨h.2, rfl⟩

/-- **A query that reads once** waits, whatever the state, or makes its first read and is settled. -/
theorem ReadsOnce.advance (h : q.ReadsOnce later valid) (hs : valid s) :
    ((q.advance locked s).ReadsOnce later valid ∧ ∀ t, (q.advance locked s).eval t = q.eval t) ∨
      ((q.advance locked s).Settled later s ∧ (q.advance locked s).eval s = q.eval s) := by
  cases q with
  | done result => exact Or.inl ⟨trivial, fun _ => rfl⟩
  | await next =>
    cases locked with
    | true => exact Or.inl ⟨h, fun _ => rfl⟩
    | false => exact Or.inl ⟨h, fun _ => rfl⟩
  | read next => exact Or.inr ⟨h s hs, rfl⟩

end Advance

end Query

end Rationale.Library
