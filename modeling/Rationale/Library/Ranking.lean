import Rationale.Library.SortUniq

namespace Rationale.Library

/-!
# Rankings

* `IsRanking before items ranking` — `ranking` arranges `items` so that each comes before all that
  follow it.  A strict order leaves room for one such arrangement, whatever the order of the items;
* `weighted_lt_iff` — a weighted sum whose lower part stays below the weight orders its parts
  lexicographically.
-/

section Weighted

/-- **A weight above every lower part decides first.** -/
theorem weighted_lt_iff {weight a b low low' : Nat} (hlow : low < weight) (hlow' : low' < weight) :
    a * weight + low < b * weight + low' ↔ a < b ∨ a = b ∧ low < low' := by
  rcases Nat.lt_trichotomy a b with hlt | heq | hgt
  · have : (a + 1) * weight ≤ b * weight := Nat.mul_le_mul_right weight hlt
    rw [Nat.add_mul] at this
    exact iff_of_true (by omega) (Or.inl hlt)
  · subst heq
    omega
  · have : (b + 1) * weight ≤ a * weight := Nat.mul_le_mul_right weight hgt
    rw [Nat.add_mul] at this
    exact iff_of_false (by omega) (by omega)

/-- Equal weighted sums have equal parts. -/
theorem weighted_eq_iff {weight a b low low' : Nat} (hlow : low < weight) (hlow' : low' < weight) :
    a * weight + low = b * weight + low' ↔ a = b ∧ low = low' := by
  have hlt := @weighted_lt_iff weight a b low low' hlow hlow'
  have hgt := @weighted_lt_iff weight b a low' low hlow' hlow
  omega

end Weighted

variable {α β : Type*} {before : α → α → Prop} {items ranking : List α}

/-- `ranking` arranges `items` so that each comes before all that follow it. -/
structure IsRanking (before : α → α → Prop) (items ranking : List α) : Prop where
  perm : ranking.Perm items
  ordered : ranking.Pairwise before

namespace IsRanking

/-- **There is at most one ranking**, and it does not depend on the order of the items. -/
theorem unique [Std.Asymm before] {items' ranking' : List α} (h : IsRanking before items ranking)
    (h' : IsRanking before items' ranking') (hperm : items.Perm items') : ranking = ranking' := by
  refine List.Perm.eq_of_pairwise (fun a b _ _ hab hba => ?_) h.ordered h'.ordered
    (h.perm.trans (hperm.trans h'.perm.symm))
  exact absurd hba (Std.Asymm.asymm _ _ hab)

/-- Whatever is cut off ranks behind everything kept. -/
theorem before_of_take_of_drop (h : IsRanking before items ranking) {n : Nat} {kept left : α}
    (hkept : kept ∈ ranking.take n) (hleft : left ∈ ranking.drop n) : before kept left := by
  have hsplit : (ranking.take n ++ ranking.drop n).Pairwise before := by
    rw [List.take_append_drop]
    exact h.ordered
  exact (List.pairwise_append.mp hsplit).2.2 kept hkept left hleft

theorem length_take (h : IsRanking before items ranking) (n : Nat) :
    (ranking.take n).length = min n items.length := by
  rw [List.length_take, h.perm.length_eq]

end IsRanking

/-- The images, in the order the items are sorted in, are the sorted images. -/
theorem map_sortBy {cmp : β → β → Ordering} (f : α → β) (items : List α) :
    (sortBy (fun a b => cmp (f a) (f b)) items).map f = sortBy cmp (items.map f) :=
  List.map_insertionSort _ _ f items (fun _ _ _ _ => Iff.rfl)

/-- **Sorting by a comparison of images ranks the items**, when the comparison tells the items
    apart. -/
theorem isRanking_sortBy {cmp : β → β → Ordering} [Std.TransCmp cmp] (f : α → β) {items : List α}
    (hne : items.Pairwise (fun a b => cmp (f a) (f b) ≠ .eq)) :
    IsRanking (fun a b => cmp (f a) (f b) = .lt) items
      (sortBy (fun a b => cmp (f a) (f b)) items) := by
  have hperm : (sortBy (fun a b => cmp (f a) (f b)) items).Perm items := sortBy_perm items
  have hsorted : (sortBy (fun a b => cmp (f a) (f b)) items).Pairwise
      (fun a b => (cmp (f a) (f b)).isLE) := by
    rw [← @List.pairwise_map _ _ f (fun a b => (cmp a b).isLE), map_sortBy]
    exact sortBy_pairwise _
  have hne' : (sortBy (fun a b => cmp (f a) (f b)) items).Pairwise
      (fun a b => cmp (f a) (f b) ≠ .eq) :=
    hperm.symm.pairwise hne (fun hab hba => hab (Std.OrientedCmp.eq_symm hba))
  refine ⟨hperm, (hsorted.and hne').imp (fun {a b} hab => ?_)⟩
  obtain ⟨hle, hne⟩ := hab
  exact (Ordering.isLE_iff_eq_lt_or_eq_eq.mp hle).resolve_right hne

end Rationale.Library
