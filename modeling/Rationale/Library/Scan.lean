import Mathlib.Data.List.Forall2
import Mathlib.Data.List.Induction

namespace Rationale.Library

/-!
# Lists built one element after the other

A loop that computes each element from an input and the element before it.

* `scan` — the list of all elements;
* `forall₂_scan` — two such loops over the same inputs, related step by step;
* `pairwise_iff_of_forall₂` — related elements satisfy related pairwise properties.
-/

variable {α β γ : Type*}

/-- The elements that a loop computes from its inputs, each from the one before it. -/
def scan (next : Option β → α → β) (l : List α) : List β :=
  l.foldl (fun done a => done ++ [next done.getLast? a]) []

section Scan

variable {next : Option β → α → β} {next' : Option γ → α → γ} {l : List α}

theorem scan_concat (a : α) :
    scan next (l ++ [a]) = scan next l ++ [next (scan next l).getLast? a] := by
  unfold scan
  rw [List.foldl_append]
  rfl

theorem scan_map {δ : Type*} (f : δ → α) (l : List δ) :
    scan next (l.map f) = scan (fun last a => next last (f a)) l := by
  unfold scan
  rw [List.foldl_map]

/-- The last elements of related lists are related. -/
theorem rel_getLast? {R : β → γ → Prop} {bs : List β} {cs : List γ} (h : List.Forall₂ R bs cs) :
    Option.Rel R bs.getLast? cs.getLast? := by
  have hhead : ∀ {bs : List β} {cs : List γ}, List.Forall₂ R bs cs →
      Option.Rel R bs.head? cs.head? := by
    intro bs cs h
    cases h with
    | nil => exact Option.Rel.none
    | cons hfirst _ => exact Option.Rel.some hfirst
  rw [List.getLast?_eq_head?_reverse, List.getLast?_eq_head?_reverse]
  exact hhead (List.forall₂_reverse_iff.mpr h)

/-- **Related loops** compute related lists. -/
theorem forall₂_scan {R : β → γ → Prop}
    (hstep : ∀ a ∈ l, ∀ last last', Option.Rel R last last' → R (next last a) (next' last' a)) :
    List.Forall₂ R (scan next l) (scan next' l) := by
  induction l using List.reverseRecOn with
  | nil => exact List.Forall₂.nil
  | append_singleton l a ih =>
    have hinit := ih (fun b hb => hstep b (List.mem_append_left _ hb))
    have hlast := hstep a (List.mem_append_right _ (List.mem_singleton_self a)) _ _
      (rel_getLast? hinit)
    rw [scan_concat, scan_concat]
    exact List.rel_append hinit (List.Forall₂.cons hlast List.Forall₂.nil)

end Scan

section Pairwise

variable {R : β → γ → Prop} {bs : List β} {cs : List γ}

theorem forall_mem_iff_of_forall₂ {P : β → Prop} {Q : γ → Prop} (h : List.Forall₂ R bs cs)
    (hiff : ∀ b c, R b c → (P b ↔ Q c)) : (∀ b ∈ bs, P b) ↔ ∀ c ∈ cs, Q c := by
  induction h with
  | nil => simp
  | cons hhead _ ih => rw [List.forall_mem_cons, List.forall_mem_cons, hiff _ _ hhead, ih]

/-- Related elements are elements. -/
theorem forall₂_mem_left (h : List.Forall₂ R bs cs) :
    List.Forall₂ (fun b c => b ∈ bs ∧ R b c) bs cs := by
  induction h with
  | nil => exact List.Forall₂.nil
  | cons hhead htail ih =>
    refine List.Forall₂.cons ⟨List.mem_cons_self, hhead⟩ (ih.imp ?_)
    exact fun b c hrel => ⟨List.mem_cons_of_mem _ hrel.1, hrel.2⟩

/-- A property of pairs carries over to related lists. -/
theorem pairwise_iff_of_forall₂ {S : β → β → Prop} {T : γ → γ → Prop} (h : List.Forall₂ R bs cs)
    (hiff : ∀ b c b' c', R b c → R b' c' → (S b b' ↔ T c c')) :
    bs.Pairwise S ↔ cs.Pairwise T := by
  induction h with
  | nil => simp
  | @cons b c bs cs hhead htail ih =>
    rw [List.pairwise_cons, List.pairwise_cons, ih]
    apply and_congr_left
    intro _
    apply forall_mem_iff_of_forall₂ htail
    exact fun b' c' hrel => hiff b c b' c' hhead hrel

end Pairwise

end Rationale.Library
