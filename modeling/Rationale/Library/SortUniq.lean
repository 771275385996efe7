import Std.Data.ExtTreeSet
import Mathlib.Data.List.Sort
import Mathlib.Data.List.Perm.Subperm

namespace Rationale.Library

open Std

/-!
# Sorting by a three-way comparison

Two operations every language with a three-way `compare` offers, over an arbitrary type:

* `sortUniq cmp l` — the distinct elements of `l` in strictly increasing order.  For a lawful
  comparison the result depends on the *set* of elements only;
* `sortBy cmp l` — a stable sort by a possibly partial key; its head is a least element.
-/

variable {α : Type*} {cmp : α → α → Ordering}

/-- The distinct elements of `l`, in increasing order for `cmp`. -/
def sortUniq (cmp : α → α → Ordering) [TransCmp cmp] (l : List α) : List α :=
  (ExtTreeSet.ofList l cmp).toList

@[simp] theorem mem_sortUniq [TransCmp cmp] [LawfulEqCmp cmp] [DecidableEq α]
    {l : List α} {a : α} : a ∈ sortUniq cmp l ↔ a ∈ l := by
  rw [sortUniq, ExtTreeSet.mem_toList, ExtTreeSet.mem_ofList, List.contains_iff_mem]

/-- The result is strictly increasing, hence free of duplicates. -/
theorem sortUniq_pairwise [TransCmp cmp] (l : List α) :
    (sortUniq cmp l).Pairwise (fun a b => cmp a b = .lt) :=
  ExtTreeSet.ordered_toList

/-- Lists that increase strictly in a key have distinct keys. -/
theorem pairwise_key_ne {β : Type*} [TransCmp cmp] {key : β → α} {l : List β}
    (hl : l.Pairwise (fun a b => cmp (key a) (key b) = .lt)) :
    l.Pairwise (fun a b => key a ≠ key b) := by
  refine hl.imp (fun {a b} hlt heq => ?_)
  rw [heq, @ReflCmp.compare_self _ cmp] at hlt
  exact absurd hlt (by decide)

/-- A list that increases strictly in a key arranges any list with its elements and no duplicates. -/
theorem perm_of_pairwise_key_lt {β : Type*} [TransCmp cmp] {key : β → α} {l l' : List β}
    (hl : l.Pairwise (fun a b => cmp (key a) (key b) = .lt)) (hl' : l'.Nodup)
    (h : ∀ a, a ∈ l ↔ a ∈ l') : l.Perm l' := by
  have hnodup : l.Nodup := (pairwise_key_ne hl).imp (fun hne heq => hne (congrArg key heq))
  exact (List.perm_ext_iff_of_nodup hnodup hl').mpr h

/-- Lists that increase strictly in a key and have the same elements are equal. -/
theorem eq_of_pairwise_key_lt {β : Type*} [TransCmp cmp] {key : β → α} {l l' : List β}
    (hl : l.Pairwise (fun a b => cmp (key a) (key b) = .lt))
    (hl' : l'.Pairwise (fun a b => cmp (key a) (key b) = .lt))
    (h : ∀ a, a ∈ l ↔ a ∈ l') : l = l' := by
  have hnodup' : l'.Nodup := (pairwise_key_ne hl').imp (fun hne heq => hne (congrArg key heq))
  have hperm : l.Perm l' := perm_of_pairwise_key_lt hl hnodup' h
  refine List.Perm.eq_of_pairwise (fun a b _ _ hab hba => ?_) hl hl' hperm
  exact absurd hba (OrientedCmp.not_lt_of_lt hab)

/-- A list that increases strictly in a key follows another order exactly when the order of the keys
    implies that order among its elements. -/
theorem pairwise_iff_of_pairwise_key_lt {β : Type*} [TransCmp cmp] {key : β → α}
    {before : β → β → Prop} {l : List β}
    (hl : l.Pairwise (fun a b => cmp (key a) (key b) = .lt)) :
    l.Pairwise before ↔ ∀ a ∈ l, ∀ b ∈ l, cmp (key a) (key b) = .lt → before a b := by
  constructor
  · intro h
    have himp : l.Pairwise (fun a b => cmp (key a) (key b) = .lt → before a b) := by
      refine h.imp ?_
      intro a b hab _
      exact hab
    have hflip : l.Pairwise (flip fun a b => cmp (key a) (key b) = .lt → before a b) := by
      refine hl.imp ?_
      intro a b hab hba
      exact absurd hba (OrientedCmp.not_lt_of_lt hab)
    refine List.Pairwise.forall_of_forall_of_flip (fun a _ hlt => ?_) himp hflip
    rw [@ReflCmp.compare_self _ cmp] at hlt
    exact nomatch hlt
  · exact fun h => hl.imp_of_mem (fun ha hb hlt => h _ ha _ hb hlt)

/-- Strictly increasing lists with the same elements are equal. -/
theorem eq_of_pairwise_lt_of_mem_iff [TransCmp cmp] {l l' : List α}
    (hl : l.Pairwise (fun a b => cmp a b = .lt)) (hl' : l'.Pairwise (fun a b => cmp a b = .lt))
    (h : ∀ a, a ∈ l ↔ a ∈ l') : l = l' :=
  @eq_of_pairwise_key_lt α cmp α _ id l l' hl hl' h

@[simp] theorem sortUniq_eq_nil [TransCmp cmp] [LawfulEqCmp cmp] [DecidableEq α] {l : List α} :
    sortUniq cmp l = [] ↔ l = [] := by
  simp only [List.eq_nil_iff_forall_not_mem, mem_sortUniq]

/-- The result depends on the set of elements only. -/
theorem sortUniq_congr [TransCmp cmp] [LawfulEqCmp cmp] [DecidableEq α] {l l' : List α}
    (h : ∀ a, a ∈ l ↔ a ∈ l') : sortUniq cmp l = sortUniq cmp l' := by
  refine eq_of_pairwise_lt_of_mem_iff (sortUniq_pairwise l) (sortUniq_pairwise l') (fun a => ?_)
  rw [mem_sortUniq, mem_sortUniq, h]

/-- Dropping repetitions does not lengthen a list. -/
theorem length_sortUniq_le [TransCmp cmp] [LawfulEqCmp cmp] [DecidableEq α] (l : List α) :
    (sortUniq cmp l).length ≤ l.length := by
  have hnodup : (sortUniq cmp l).Nodup := (sortUniq_pairwise l).imp (fun {a b} hlt heq => by
    rw [heq, @ReflCmp.compare_self _ cmp] at hlt
    exact absurd hlt (by decide))
  exact (hnodup.subperm (fun a ha => mem_sortUniq.mp ha)).length_le

/-- Stable sort by a three-way comparison. -/
def sortBy (cmp : α → α → Ordering) (l : List α) : List α :=
  l.insertionSort (fun a b => (cmp a b).isLE)

@[simp] theorem mem_sortBy {l : List α} {a : α} : a ∈ sortBy cmp l ↔ a ∈ l :=
  List.mem_insertionSort _

theorem sortBy_perm (l : List α) : (sortBy cmp l).Perm l := List.perm_insertionSort _ _

/-- Lists that are sorted to the same one. -/
theorem perm_of_sortBy_eq {l l' : List α} (h : sortBy cmp l = sortBy cmp l') : l.Perm l' := by
  have hperm := @sortBy_perm _ cmp l'
  rw [← h] at hperm
  exact (sortBy_perm l).symm.trans hperm

theorem sortBy_pairwise [TransCmp cmp] (l : List α) :
    (sortBy cmp l).Pairwise (fun a b => (cmp a b).isLE) := by
  have : Std.Total (fun a b => (cmp a b).isLE = true) := ⟨fun a b => by
    cases h : cmp a b with
    | lt => exact Or.inl rfl
    | eq => exact Or.inl rfl
    | gt => exact Or.inr (by rw [OrientedCmp.lt_of_gt h]; rfl)⟩
  have : IsTrans α (fun a b => (cmp a b).isLE = true) := ⟨fun _ _ _ => TransCmp.isLE_trans⟩
  exact List.pairwise_insertionSort _ l

/-- A list with distinct keys increases strictly after sorting by them. -/
theorem sortBy_pairwise_key_lt {β : Type*} [TransCmp cmp] [LawfulEqCmp cmp] {key : β → α} {l : List β}
    (hl : (l.map key).Nodup) : (sortBy (fun a b => cmp (key a) (key b)) l).Pairwise
      (fun a b => cmp (key a) (key b) = .lt) := by
  have : TransCmp (fun a b => cmp (key a) (key b)) :=
    { eq_swap := OrientedCmp.eq_swap, isLE_trans := TransCmp.isLE_trans }
  have hne : (sortBy (fun a b => cmp (key a) (key b)) l).Pairwise (fun a b => key a ≠ key b) :=
    List.pairwise_map.mp (((sortBy_perm l).map key).nodup_iff.mpr hl)
  refine (hne.and (sortBy_pairwise l)).imp fun {a b} h => ?_
  cases hcmp : cmp (key a) (key b) with
  | lt => rfl
  | eq => exact absurd (LawfulEqCmp.eq_of_compare hcmp) h.1
  | gt => exact absurd h.2 (by simp [hcmp])

/-- A sorted list is unchanged by sorting. -/
theorem sortBy_eq_self {l : List α} (hl : l.Pairwise (fun a b => (cmp a b).isLE)) :
    sortBy cmp l = l :=
  hl.insertionSort_eq

/-- Sorting forgets the order of a list whose elements the comparison tells apart. -/
theorem sortBy_eq_of_perm [TransCmp cmp] {l l' : List α} (hperm : l.Perm l')
    (hl : ∀ a ∈ l, ∀ b ∈ l, cmp a b = .eq → a = b) : sortBy cmp l = sortBy cmp l' := by
  have hsorted : (sortBy cmp l).Perm (sortBy cmp l') :=
    (sortBy_perm l).trans (hperm.trans (sortBy_perm l').symm)
  refine List.Perm.eq_of_pairwise (fun a b ha hb hab hba => ?_) (sortBy_pairwise l)
    (sortBy_pairwise l') hsorted
  have hb' : b ∈ l := hperm.mem_iff.mpr (mem_sortBy.mp hb)
  exact hl a (mem_sortBy.mp ha) b hb' (OrientedCmp.isLE_antisymm hab hba)

/-- The head of the sorted list is below every element. -/
theorem head?_sortBy_isLE [TransCmp cmp] {l : List α} {a b : α}
    (ha : (sortBy cmp l).head? = some a) (hb : b ∈ l) : (cmp a b).isLE := by
  obtain ⟨tl, htl⟩ := List.head?_eq_some_iff.mp ha
  have hsorted : (sortBy cmp l).Pairwise _ := sortBy_pairwise l
  rw [htl] at hsorted
  have hmem : b ∈ a :: tl := htl ▸ mem_sortBy.mpr hb
  rcases List.mem_cons.mp hmem with rfl | hmem
  · rw [@ReflCmp.compare_self _ cmp]; rfl
  · exact (List.pairwise_cons.mp hsorted).1 b hmem

end Rationale.Library
