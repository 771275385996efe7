import Mathlib.Logic.Relation
import Mathlib.Data.Set.Card

namespace Rationale.Library

open Relation

/-!
# Bounded breadth-first enumeration

`enumerate children budget queue` takes items from the front of a queue, appends their children
at the back, and gives up once `budget` items have been taken while the queue is not empty.

* `mem_enumerate` — what it returns is exactly what the queue reaches through `children`,
  whatever the shape of the graph, provided the budget was not exhausted;
* `nodup_enumerate`, `pairwise_enumerate`, `isSome_enumerate_iff` — over a forest nothing is taken
  twice, levels do not decrease, and the budget suffices exactly when there are no more items.
-/

variable {α : Type*} (children : α → List α)

/-- One parent-to-child step. -/
def ChildOf (a b : α) : Prop := b ∈ children a

/-- The items taken from the queue, in order; `none` when the budget runs out. -/
def enumerate : Nat → List α → Option (List α)
  | _, [] => some []
  | 0, _ :: _ => none
  | budget + 1, item :: queue =>
      (enumerate budget (queue ++ children item)).map (item :: ·)

variable {children}

theorem enumerate_succ_cons {budget : Nat} {item : α} {queue visited : List α} :
    enumerate children (budget + 1) (item :: queue) = some visited ↔
      ∃ rest, enumerate children budget (queue ++ children item) = some rest ∧
        visited = item :: rest := by
  rw [enumerate, Option.map_eq_some_iff]
  exact exists_congr (fun rest => and_congr_right (fun _ => eq_comm))

/-- A reached item is the start itself or is reached from one of its children. -/
theorem reflTransGen_childOf_iff {a b : α} :
    ReflTransGen (ChildOf children) a b ↔
      b = a ∨ ∃ c ∈ children a, ReflTransGen (ChildOf children) c b := by
  constructor
  · intro h
    rcases h.cases_head with rfl | ⟨c, hac, hcb⟩
    · exact Or.inl rfl
    · exact Or.inr ⟨c, hac, hcb⟩
  · rintro (rfl | ⟨c, hac, hcb⟩)
    · exact ReflTransGen.refl
    · exact ReflTransGen.head hac hcb

/-- **Enumeration is reachability.** Whatever was taken from the queue is what the queue reaches
    through `children`. -/
theorem mem_enumerate {budget : Nat} {queue visited : List α}
    (h : enumerate children budget queue = some visited) (b : α) :
    b ∈ visited ↔ ∃ a ∈ queue, ReflTransGen (ChildOf children) a b := by
  induction budget generalizing queue visited with
  | zero =>
    cases queue with
    | nil =>
      obtain rfl : [] = visited := Option.some.inj h
      simp
    | cons item queue => exact absurd h (by simp [enumerate])
  | succ budget ih =>
    cases queue with
    | nil =>
      obtain rfl : [] = visited := Option.some.inj h
      simp
    | cons item queue =>
      -- taking an item moves it to the result and puts its children on the queue
      obtain ⟨rest, hrest, rfl⟩ := enumerate_succ_cons.mp h
      rw [List.mem_cons, ih hrest]
      constructor
      · rintro (rfl | ⟨a, ha, hab⟩)
        · exact ⟨b, List.mem_cons_self, ReflTransGen.refl⟩
        · rcases List.mem_append.mp ha with ha | ha
          · exact ⟨a, List.mem_cons_of_mem _ ha, hab⟩
          · exact ⟨item, List.mem_cons_self, ReflTransGen.head ha hab⟩
      · rintro ⟨a, ha, hab⟩
        rcases List.mem_cons.mp ha with rfl | ha
        · rcases reflTransGen_childOf_iff.mp hab with rfl | ⟨c, hc, hcb⟩
          · exact Or.inl rfl
          · exact Or.inr ⟨c, List.mem_append_right _ hc, hcb⟩
        · exact Or.inr ⟨a, List.mem_append_left _ ha, hab⟩

/-! ### Forests

When every item has one parent, a queue of unrelated items is taken without repetition, level by
level, and the budget runs out exactly when there are too many items. -/

variable {level : α → Nat}

/-- Every item has at most one parent, and lies one level below it. -/
structure Forest (children : α → List α) (level : α → Nat) : Prop where
  nodup : ∀ a, (children a).Nodup
  parent_unique : ∀ a a' b, b ∈ children a → b ∈ children a' → a = a'
  level_child : ∀ a b, b ∈ children a → level b = level a + 1

/-- The items that a queue reaches. -/
def Below (children : α → List α) (queue : List α) : Set α :=
  {b | ∃ a ∈ queue, ReflTransGen (ChildOf children) a b}

/-- Different items, none of them below another. -/
structure Unrelated (children : α → List α) (queue : List α) : Prop where
  nodup : queue.Nodup
  apart : ∀ a ∈ queue, ∀ b ∈ queue, ¬ TransGen (ChildOf children) a b

/-- Items in level order that span at most two levels. -/
structure Layered (level : α → Nat) (queue : List α) : Prop where
  sorted : queue.Pairwise (fun a b => level a ≤ level b)
  span : ∀ a ∈ queue, ∀ b ∈ queue, level b ≤ level a + 1

theorem unrelated_singleton (hforest : Forest children level) (a : α) :
    Unrelated children [a] where
  nodup := List.nodup_singleton a
  apart := by
    have hlt : ∀ b, TransGen (ChildOf children) a b → level a < level b := by
      intro b h
      induction h with
      | single hchild => rw [hforest.level_child _ _ hchild]; omega
      | tail _ hchild ih => rw [hforest.level_child _ _ hchild]; omega
    intro b hb c hc h
    rw [List.mem_singleton.mp hb, List.mem_singleton.mp hc] at h
    exact absurd (hlt a h) (Nat.lt_irrefl _)

theorem layered_singleton (a : α) : Layered level [a] where
  sorted := List.pairwise_singleton _ a
  span b hb c hc := by
    rw [List.mem_singleton.mp hb, List.mem_singleton.mp hc]
    exact Nat.le_succ _

section Forest

variable (hforest : Forest children level)

include hforest

theorem Forest.level_le {a b : α} (h : ReflTransGen (ChildOf children) a b) :
    level a ≤ level b := by
  induction h with
  | refl => exact Nat.le_refl _
  | tail _ hchild ih => rw [hforest.level_child _ _ hchild]; omega

/-- What leads to a child leads to its parent. -/
theorem Forest.parent_of_transGen {a b item : α} (h : TransGen (ChildOf children) a b)
    (hb : b ∈ children item) : ReflTransGen (ChildOf children) a item := by
  obtain ⟨parent, hparent, hchild⟩ := TransGen.tail'_iff.mp h
  rwa [hforest.parent_unique item parent b hb hchild]

/-- Nothing that is still to come leads to the item just taken. -/
theorem Unrelated.not_reached {item : α} {queue : List α}
    (h : Unrelated children (item :: queue)) {a : α} (ha : a ∈ queue ++ children item) :
    ¬ ReflTransGen (ChildOf children) a item := by
  intro hreach
  rcases List.mem_append.mp ha with ha | ha
  · rcases reflTransGen_iff_eq_or_transGen.mp hreach with rfl | htrans
    · exact (List.nodup_cons.mp h.nodup).1 ha
    · exact h.apart a (List.mem_cons_of_mem _ ha) item List.mem_cons_self htrans
  · have hle := hforest.level_le hreach
    rw [hforest.level_child _ _ ha] at hle
    omega

/-- The rest of the queue and the new children are unrelated. -/
theorem Unrelated.next {item : α} {queue : List α} (h : Unrelated children (item :: queue)) :
    Unrelated children (queue ++ children item) := by
  have hitem : ∀ a ∈ queue ++ children item, ¬ ReflTransGen (ChildOf children) a item :=
    fun a ha => h.not_reached hforest ha
  constructor
  · refine List.nodup_append.mpr ⟨(List.nodup_cons.mp h.nodup).2, hforest.nodup item, ?_⟩
    rintro a ha b hb rfl
    exact h.apart item List.mem_cons_self a (List.mem_cons_of_mem _ ha) (TransGen.single hb)
  · intro a ha b hb htrans
    rcases List.mem_append.mp hb with hb | hb
    · rcases List.mem_append.mp ha with ha | ha
      · exact h.apart a (List.mem_cons_of_mem _ ha) b (List.mem_cons_of_mem _ hb) htrans
      · exact h.apart item List.mem_cons_self b (List.mem_cons_of_mem _ hb)
          (TransGen.head ha htrans)
    · exact hitem a ha (hforest.parent_of_transGen htrans hb)

/-- **No repetition.** -/
theorem nodup_enumerate {budget : Nat} {queue visited : List α}
    (h : enumerate children budget queue = some visited) (hqueue : Unrelated children queue) :
    visited.Nodup := by
  induction budget generalizing queue visited with
  | zero =>
    cases queue with
    | nil => obtain rfl : [] = visited := Option.some.inj h; exact List.nodup_nil
    | cons item queue => exact nomatch h
  | succ budget ih =>
    cases queue with
    | nil => obtain rfl : [] = visited := Option.some.inj h; exact List.nodup_nil
    | cons item queue =>
      obtain ⟨rest, hrest, rfl⟩ := enumerate_succ_cons.mp h
      refine List.nodup_cons.mpr ⟨fun hmem => ?_, ih hrest (hqueue.next hforest)⟩
      obtain ⟨a, ha, hreach⟩ := (mem_enumerate hrest item).mp hmem
      exact hqueue.not_reached hforest ha hreach

/-- The rest of the queue and the new children are in level order. -/
theorem Layered.next {item : α} {queue : List α} (h : Layered level (item :: queue)) :
    Layered level (queue ++ children item) := by
  have hmem : ∀ a ∈ queue, a ∈ item :: queue := fun a ha => List.mem_cons_of_mem _ ha
  have hspan : ∀ a ∈ queue, level item ≤ level a ∧ level a ≤ level item + 1 := fun a ha =>
    ⟨(List.pairwise_cons.mp h.sorted).1 a ha, h.span item List.mem_cons_self a (hmem a ha)⟩
  have hchild : ∀ c ∈ children item, level c = level item + 1 := hforest.level_child item
  constructor
  · refine List.pairwise_append.mpr ⟨(List.pairwise_cons.mp h.sorted).2, ?_, ?_⟩
    · exact List.pairwise_of_forall_mem_list (fun a ha b hb => by rw [hchild a ha, hchild b hb])
    · intro a ha c hc
      rw [hchild c hc]
      exact (hspan a ha).2
  · intro a ha b hb
    rcases List.mem_append.mp ha with ha | ha <;> rcases List.mem_append.mp hb with hb | hb
    · exact h.span a (hmem a ha) b (hmem b hb)
    · rw [hchild b hb]
      have := (hspan a ha).1
      omega
    · rw [hchild a ha]
      have := (hspan b hb).2
      omega
    · rw [hchild a ha, hchild b hb]
      omega

/-- **Level order.** -/
theorem pairwise_enumerate {budget : Nat} {queue visited : List α}
    (h : enumerate children budget queue = some visited) (hqueue : Layered level queue) :
    visited.Pairwise (fun a b => level a ≤ level b) := by
  induction budget generalizing queue visited with
  | zero =>
    cases queue with
    | nil => obtain rfl : [] = visited := Option.some.inj h; exact List.Pairwise.nil
    | cons item queue => exact nomatch h
  | succ budget ih =>
    cases queue with
    | nil => obtain rfl : [] = visited := Option.some.inj h; exact List.Pairwise.nil
    | cons item queue =>
      obtain ⟨rest, hrest, rfl⟩ := enumerate_succ_cons.mp h
      refine List.pairwise_cons.mpr ⟨fun b hb => ?_, ih hrest (hqueue.next hforest)⟩
      obtain ⟨a, ha, hreach⟩ := (mem_enumerate hrest b).mp hb
      have hle := hforest.level_le hreach
      rcases List.mem_append.mp ha with ha | ha
      · have := (List.pairwise_cons.mp hqueue.sorted).1 a ha
        omega
      · have := hforest.level_child item a ha
        omega

/-- An enumeration that gives up has met more items than its budget. -/
theorem exists_of_enumerate_eq_none {budget : Nat} {queue : List α}
    (h : enumerate children budget queue = none) (hqueue : Unrelated children queue) :
    ∃ met : List α, met.length = budget + 1 ∧ met.Nodup ∧ ∀ b ∈ met, b ∈ Below children queue := by
  induction budget generalizing queue with
  | zero =>
    cases queue with
    | nil => exact nomatch h
    | cons item queue =>
      refine ⟨[item], rfl, List.nodup_singleton item, fun b hb => ?_⟩
      rw [List.mem_singleton.mp hb]
      exact ⟨item, List.mem_cons_self, ReflTransGen.refl⟩
  | succ budget ih =>
    cases queue with
    | nil => exact nomatch h
    | cons item queue =>
      rw [enumerate, Option.map_eq_none_iff] at h
      obtain ⟨met, hlength, hnodup, hbelow⟩ := ih h (hqueue.next hforest)
      refine ⟨item :: met, by rw [List.length_cons, hlength], ?_, fun b hb => ?_⟩
      · refine List.nodup_cons.mpr ⟨fun hmem => ?_, hnodup⟩
        obtain ⟨a, ha, hreach⟩ := hbelow item hmem
        exact hqueue.not_reached hforest ha hreach
      · rcases List.mem_cons.mp hb with rfl | hb
        · exact ⟨b, List.mem_cons_self, ReflTransGen.refl⟩
        · obtain ⟨a, ha, hreach⟩ := hbelow b hb
          rcases List.mem_append.mp ha with ha | ha
          · exact ⟨a, List.mem_cons_of_mem _ ha, hreach⟩
          · exact ⟨item, List.mem_cons_self, ReflTransGen.head ha hreach⟩

omit hforest in
/-- What was taken is no more than the budget allows. -/
theorem length_enumerate_le {budget : Nat} {queue visited : List α}
    (h : enumerate children budget queue = some visited) : visited.length ≤ budget := by
  induction budget generalizing queue visited with
  | zero =>
    cases queue with
    | nil => obtain rfl : [] = visited := Option.some.inj h; exact Nat.le_refl _
    | cons item queue => exact nomatch h
  | succ budget ih =>
    cases queue with
    | nil => obtain rfl : [] = visited := Option.some.inj h; exact Nat.zero_le _
    | cons item queue =>
      obtain ⟨rest, hrest, rfl⟩ := enumerate_succ_cons.mp h
      exact Nat.succ_le_succ (ih hrest)

/-- **The bound is exact.** Enumeration succeeds iff the queue reaches no more items than the
    budget allows. -/
theorem isSome_enumerate_iff {budget : Nat} {queue : List α} (hqueue : Unrelated children queue) :
    (enumerate children budget queue).isSome ↔ (Below children queue).encard ≤ budget := by
  classical
  cases h : enumerate children budget queue with
  | some visited =>
    have hbelow : Below children queue = ↑visited.toFinset := by
      ext b
      rw [List.coe_toFinset]
      exact (mem_enumerate h b).symm
    have hcard := (List.toFinset_card_le visited).trans (length_enumerate_le h)
    rw [hbelow, Set.encard_coe_eq_coe_finsetCard]
    exact iff_of_true rfl (by exact_mod_cast hcard)
  | none =>
    obtain ⟨met, hlength, hnodup, hmet⟩ := exists_of_enumerate_eq_none hforest h hqueue
    have hsubset : (↑met.toFinset : Set α) ⊆ Below children queue := by
      intro b hb
      rw [List.coe_toFinset] at hb
      exact hmet b hb
    have hcard := Set.encard_le_encard hsubset
    rw [Set.encard_coe_eq_coe_finsetCard, List.toFinset_card_of_nodup hnodup, hlength] at hcard
    refine iff_of_false (by simp) (fun hle => ?_)
    have hcontra := hcard.trans hle
    rw [Nat.cast_le] at hcontra
    omega

end Forest

end Rationale.Library
