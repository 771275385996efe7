import Std.Data.ExtTreeMap
import Std.Data.ExtTreeSet
import Mathlib.Data.List.Nodup
import Mathlib.Tactic.Tauto
import Rationale.Library.SortUniq

namespace Rationale.Library

open Std

/-!
# Ordered maps of self-keyed values

Collections of records that carry their own key (`record.id`), stored in an ordered map.

* `insertAll` — insert a list, a later item replacing an earlier one with its key
  (`collect` into a map, `insert` in a loop);
* `insertNewAll` — insert only under unused keys (`entry(key).or_insert(value)` in a loop);
* `indexBy` — `insertAll` into the empty map;
* `values` — the values in increasing key order;
* `KeyedBy key m` — every value sits under its own key; kept by all of the above;
* `KeyedBy.length_values` — the size of a map by its keys;
* `mem_foldl_insert`, `size_foldl_insert` — the keys of a list gathered into an ordered set.
-/

variable {κ α : Type*} {cmp : κ → κ → Ordering} [TransCmp cmp]

def insertAll (key : α → κ) (m : ExtTreeMap κ α cmp) (l : List α) : ExtTreeMap κ α cmp :=
  l.foldl (fun m a => m.insert (key a) a) m

def insertNewAll (key : α → κ) (m : ExtTreeMap κ α cmp) (l : List α) : ExtTreeMap κ α cmp :=
  l.foldl (fun m a => m.insertIfNew (key a) a) m

def indexBy (key : α → κ) (l : List α) : ExtTreeMap κ α cmp := insertAll key ∅ l

/-- Values in increasing key order. -/
def values (m : ExtTreeMap κ α cmp) : List α := m.toList.map Prod.snd

/-- Every value is stored under its own key. -/
def KeyedBy (key : α → κ) (m : ExtTreeMap κ α cmp) : Prop :=
  ∀ k a, m[k]? = some a → key a = k

variable {key : α → κ} {m : ExtTreeMap κ α cmp} {l : List α}

theorem insertAll_append {l' : List α} :
    insertAll key m (l ++ l') = insertAll key (insertAll key m l) l' :=
  List.foldl_append

theorem keyedBy_empty : KeyedBy key (∅ : ExtTreeMap κ α cmp) := by
  intro k a h
  simp at h

variable [LawfulEqCmp cmp]

theorem mem_values {a : α} : a ∈ values m ↔ ∃ k : κ, m[k]? = some a := by
  simp only [values, List.mem_map, Prod.exists, exists_eq_right,
    ExtTreeMap.mem_toList_iff_getElem?_eq_some]

/-- The values of a self-keyed map come out strictly increasing in their keys. -/
theorem KeyedBy.values_pairwise (hm : KeyedBy key m) :
    (values m).Pairwise (fun a b => cmp (key a) (key b) = .lt) := by
  rw [values, List.pairwise_map]
  refine ExtTreeMap.ordered_keys_toList.imp_of_mem (fun {p q} hp hq hlt => ?_)
  rwa [hm _ _ (ExtTreeMap.mem_toList_iff_getElem?_eq_some.mp hp),
    hm _ _ (ExtTreeMap.mem_toList_iff_getElem?_eq_some.mp hq)]

theorem KeyedBy.mem_values_iff (hm : KeyedBy key m) {a : α} :
    a ∈ values m ↔ m[key a]? = some a := by
  rw [mem_values]
  constructor
  · rintro ⟨k, hk⟩
    rwa [hm k a hk]
  · exact fun h => ⟨_, h⟩

theorem KeyedBy.mem_iff (hm : KeyedBy key m) {k : κ} : k ∈ m ↔ ∃ a ∈ values m, key a = k := by
  rw [← ExtTreeMap.isSome_getElem?_iff_mem, Option.isSome_iff_exists]
  constructor
  · rintro ⟨a, ha⟩
    exact ⟨a, mem_values.mpr ⟨k, ha⟩, hm k a ha⟩
  · rintro ⟨a, ha, rfl⟩
    exact ⟨a, hm.mem_values_iff.mp ha⟩

/-! ### Lookups -/

variable [DecidableEq κ]

/-- The last item of `l` with the key wins over the map. -/
theorem getElem?_insertAll (k : κ) :
    (insertAll key m l)[k]? = (l.reverse.find? (fun a => key a = k)).or m[k]? := by
  induction l generalizing m with
  | nil => rfl
  | cons a l ih =>
    rw [insertAll, List.foldl_cons, ← insertAll, ih, List.reverse_cons, List.find?_append,
      Option.or_assoc, ExtTreeMap.getElem?_insert]
    by_cases h : key a = k <;> simp [h]

/-- The map wins over the first item of `l` with the key. -/
theorem getElem?_insertNewAll (k : κ) :
    (insertNewAll key m l)[k]? = m[k]?.or (l.find? (fun a => key a = k)) := by
  induction l generalizing m with
  | nil => simp [insertNewAll]
  | cons a l ih =>
    rw [insertNewAll, List.foldl_cons, ← insertNewAll, ih, ExtTreeMap.getElem?_insertIfNew]
    by_cases h : key a = k
    · subst h
      by_cases hm : key a ∈ m
      · have hsome : (m[key a]?).isSome := ExtTreeMap.isSome_getElem?_iff_mem.mpr hm
        rw [if_neg (by simp [hm]), Option.or_of_isSome hsome, Option.or_of_isSome hsome]
      · simp [hm]
    · simp [h]

@[simp] theorem mem_insertAll {k : κ} : k ∈ insertAll key m l ↔ k ∈ m ∨ ∃ a ∈ l, key a = k := by
  rw [← ExtTreeMap.isSome_getElem?_iff_mem, getElem?_insertAll, Option.isSome_or,
    Bool.or_eq_true, List.find?_isSome, ExtTreeMap.isSome_getElem?_iff_mem, or_comm]
  simp

@[simp] theorem mem_insertNewAll {k : κ} :
    k ∈ insertNewAll key m l ↔ k ∈ m ∨ ∃ a ∈ l, key a = k := by
  rw [← ExtTreeMap.isSome_getElem?_iff_mem, getElem?_insertNewAll, Option.isSome_or,
    Bool.or_eq_true, List.find?_isSome, ExtTreeMap.isSome_getElem?_iff_mem]
  simp

@[simp] theorem mem_indexBy {k : κ} :
    k ∈ (indexBy key l : ExtTreeMap κ α cmp) ↔ ∃ a ∈ l, key a = k := by
  rw [indexBy, mem_insertAll]
  simp

/-- What `insertAll` stores comes from the list or from the map. -/
theorem mem_or_of_getElem?_insertAll {k : κ} {a : α} (h : (insertAll key m l)[k]? = some a) :
    a ∈ l ∧ key a = k ∨ m[k]? = some a := by
  rw [getElem?_insertAll, Option.or_eq_some_iff] at h
  rcases h with h | ⟨_, h⟩
  · exact Or.inl ⟨List.mem_reverse.mp (List.mem_of_find?_eq_some h), by
      simpa using List.find?_some h⟩
  · exact Or.inr h

/-- What `insertNewAll` stores comes from the map, or from the list under an unused key. -/
theorem mem_or_of_getElem?_insertNewAll {k : κ} {a : α}
    (h : (insertNewAll key m l)[k]? = some a) :
    m[k]? = some a ∨ m[k]? = none ∧ a ∈ l ∧ key a = k := by
  rw [getElem?_insertNewAll, Option.or_eq_some_iff] at h
  rcases h with h | ⟨hnone, h⟩
  · exact Or.inl h
  · exact Or.inr ⟨hnone, List.mem_of_find?_eq_some h, by simpa using List.find?_some h⟩

/-- When keys are not shared in a list, a search by key is membership. -/
theorem find?_key_eq_some (hl : ∀ a ∈ l, ∀ b ∈ l, key a = key b → a = b) {k : κ} {a : α} :
    l.find? (fun a => key a = k) = some a ↔ a ∈ l ∧ key a = k := by
  constructor
  · intro h
    exact ⟨List.mem_of_find?_eq_some h, by simpa using List.find?_some h⟩
  · intro ⟨ha, hkey⟩
    have hsome : (l.find? (fun a => key a = k)).isSome := by
      rw [List.find?_isSome]
      exact ⟨a, ha, decide_eq_true hkey⟩
    obtain ⟨b, hb⟩ := Option.isSome_iff_exists.mp hsome
    have hkey' : key b = k := by simpa using List.find?_some hb
    rw [hb, hl b (List.mem_of_find?_eq_some hb) a ha (hkey'.trans hkey.symm)]

/-- When keys are not shared in a list, its items are stored, and the map under the other keys. -/
theorem getElem?_insertAll_of_unique (hl : ∀ a ∈ l, ∀ b ∈ l, key a = key b → a = b) {k : κ}
    {a : α} : (insertAll key m l)[k]? = some a ↔
      a ∈ l ∧ key a = k ∨ (∀ b ∈ l, key b ≠ k) ∧ m[k]? = some a := by
  have hreverse : ∀ a ∈ l.reverse, ∀ b ∈ l.reverse, key a = key b → a = b := fun a ha b hb =>
    hl a (List.mem_reverse.mp ha) b (List.mem_reverse.mp hb)
  rw [getElem?_insertAll, Option.or_eq_some_iff, find?_key_eq_some hreverse, List.find?_eq_none]
  simp only [List.mem_reverse, decide_eq_true_eq, ne_eq]

/-- When keys are not shared in a list, lookup in its index is membership. -/
theorem getElem?_indexBy_of_unique (hl : ∀ a ∈ l, ∀ b ∈ l, key a = key b → a = b) {k : κ} {a : α} :
    (indexBy key l : ExtTreeMap κ α cmp)[k]? = some a ↔ a ∈ l ∧ key a = k := by
  rw [indexBy, getElem?_insertAll_of_unique hl]
  simp

theorem getElem?_indexBy_of_nodup (hl : (l.map key).Nodup) {k : κ} {a : α} :
    (indexBy key l : ExtTreeMap κ α cmp)[k]? = some a ↔ a ∈ l ∧ key a = k :=
  getElem?_indexBy_of_unique (fun _ ha _ hb => List.inj_on_of_nodup_map hl ha hb)

/-! ### Self-keyed maps -/

theorem KeyedBy.insertAll (hm : KeyedBy key m) : KeyedBy key (insertAll key m l) := by
  intro k a h
  rcases mem_or_of_getElem?_insertAll h with ⟨_, h⟩ | h
  · exact h
  · exact hm k a h

theorem KeyedBy.insertNewAll (hm : KeyedBy key m) : KeyedBy key (insertNewAll key m l) := by
  intro k a h
  rcases mem_or_of_getElem?_insertNewAll h with h | ⟨_, _, h⟩
  · exact hm k a h
  · exact h

theorem keyedBy_indexBy : KeyedBy key (indexBy key l : ExtTreeMap κ α cmp) :=
  keyedBy_empty.insertAll

/-- A change that keeps the keys can be made before or after indexing. -/
theorem getElem?_indexBy_map {f : α → α} (hf : ∀ a, key (f a) = key a) (k : κ) :
    (indexBy key (l.map f) : ExtTreeMap κ α cmp)[k]? = (indexBy key l : ExtTreeMap κ α cmp)[k]?.map f := by
  have hkey : (fun a => decide (key a = k)) ∘ f = fun a => decide (key a = k) := by
    funext a
    simp [hf]
  rw [indexBy, indexBy, getElem?_insertAll, getElem?_insertAll, ← List.map_reverse, List.find?_map,
    hkey]
  simp

/-- When keys are not shared in a list, its index holds the whole list. -/
theorem mem_values_indexBy (hl : ∀ a ∈ l, ∀ b ∈ l, key a = key b → a = b) {a : α} :
    a ∈ values (indexBy key l : ExtTreeMap κ α cmp) ↔ a ∈ l := by
  rw [keyedBy_indexBy.mem_values_iff, getElem?_indexBy_of_unique hl]
  exact and_iff_left rfl

/-- An index holds the last item under each key. -/
theorem mem_values_indexBy_iff_last {a : α} :
    a ∈ values (indexBy key l : ExtTreeMap κ α cmp) ↔
      ∃ before after, l = before ++ a :: after ∧ ∀ later ∈ after, key later ≠ key a := by
  rw [keyedBy_indexBy.mem_values_iff, indexBy, getElem?_insertAll, ExtTreeMap.getElem?_empty,
    Option.or_none, List.find?_eq_some_iff_append]
  simp only [decide_true, true_and]
  constructor
  · rintro ⟨after, before, hl, hafter⟩
    refine ⟨before.reverse, after.reverse, ?_, fun later hlater => ?_⟩
    · rw [← List.reverse_inj, hl]
      simp
    · simpa using hafter later (List.mem_reverse.mp hlater)
  · rintro ⟨before, after, rfl, hafter⟩
    refine ⟨after.reverse, before.reverse, by simp, fun later hlater => ?_⟩
    simpa using hafter later (List.mem_reverse.mp hlater)

/-- Searching the values for a key is looking it up. -/
theorem KeyedBy.find?_values (hm : KeyedBy key m) (k : κ) :
    (values m).find? (fun a => key a = k) = m[k]? := by
  cases hk : m[k]? with
  | none =>
    rw [List.find?_eq_none]
    intro a ha heq
    obtain rfl := of_decide_eq_true heq
    rw [hm.mem_values_iff.mp ha] at hk
    exact nomatch hk
  | some a =>
    have hsome : ((values m).find? (fun a => key a = k)).isSome := by
      rw [List.find?_isSome]
      exact ⟨a, mem_values.mpr ⟨k, hk⟩, decide_eq_true (hm k a hk)⟩
    obtain ⟨b, hb⟩ := Option.isSome_iff_exists.mp hsome
    have hkey : key b = k := by simpa using List.find?_some hb
    have hget := hm.mem_values_iff.mp (List.mem_of_find?_eq_some hb)
    rw [hkey, hk] at hget
    rw [hb, hget]

/-- The same among the values with a property. -/
theorem KeyedBy.find?_filter_values (hm : KeyedBy key m) (q : α → Bool) (k : κ) :
    ((values m).filter q).find? (fun a => key a = k) = m[k]?.filter q := by
  cases hfind : ((values m).filter q).find? (fun a => key a = k) with
  | none =>
    rw [List.find?_eq_none] at hfind
    cases hk : m[k]? with
    | none => rfl
    | some a =>
      have hq : q a ≠ true := fun hq =>
        hfind a (List.mem_filter.mpr ⟨mem_values.mpr ⟨k, hk⟩, hq⟩) (decide_eq_true (hm k a hk))
      rw [Option.filter_some, if_neg hq]
  | some a =>
    have hkey : key a = k := by simpa using List.find?_some hfind
    obtain ⟨hmem, hq⟩ := List.mem_filter.mp (List.mem_of_find?_eq_some hfind)
    have hget := hm.mem_values_iff.mp hmem
    rw [hkey] at hget
    rw [hget, Option.filter_some, if_pos hq]

/-- Indexing the values of a self-keyed map gives the map back. -/
theorem KeyedBy.getElem?_indexBy_values (hm : KeyedBy key m) (k : κ) :
    (indexBy key (values m) : ExtTreeMap κ α cmp)[k]? = m[k]? := by
  have hunique : ∀ a ∈ values m, ∀ b ∈ values m, key a = key b → a = b := by
    intro a ha b hb heq
    have hget := hm.mem_values_iff.mp ha
    rw [heq, hm.mem_values_iff.mp hb] at hget
    exact (Option.some.inj hget).symm
  apply Option.ext
  intro a
  have hindex : (indexBy key (values m) : ExtTreeMap κ α cmp)[key a]? = some a ↔
      m[key a]? = some a := by
    rw [← keyedBy_indexBy.mem_values_iff, mem_values_indexBy hunique, hm.mem_values_iff]
  constructor
  · intro h
    obtain rfl := keyedBy_indexBy k a h
    exact hindex.mp h
  · intro h
    obtain rfl := hm k a h
    exact hindex.mpr h

/-- Adding the values of a self-keyed map looks up in both maps, the first one winning. -/
theorem KeyedBy.getElem?_insertNewAll_values {m' : ExtTreeMap κ α cmp} (hm : KeyedBy key m')
    (k : κ) : (Library.insertNewAll key m (values m'))[k]? = m[k]?.or m'[k]? := by
  rw [getElem?_insertNewAll, hm.find?_values]

/-- Items of one kind, taken out of the map that they were added to, can be added again. -/
theorem KeyedBy.insertNewAll_filter_values (hm : KeyedBy key m) {q : α → Bool}
    (hnew : ∀ a ∈ l, q a = true) :
    Library.insertNewAll key m ((values (Library.insertNewAll key m l)).filter q) =
      Library.insertNewAll key m l := by
  apply ExtTreeMap.ext_getElem?
  intro k
  rw [getElem?_insertNewAll, hm.insertNewAll.find?_filter_values, getElem?_insertNewAll]
  cases hk : m[k]? with
  | some a => rfl
  | none =>
    rw [Option.none_or, Option.none_or]
    cases hfind : l.find? (fun a => key a = k) with
    | none => rfl
    | some a => rw [Option.filter_some, if_pos (hnew a (List.mem_of_find?_eq_some hfind))]

theorem map_values_indexBy {f : α → α} (hf : ∀ a, key (f a) = key a) :
    (values (indexBy key l : ExtTreeMap κ α cmp)).map f =
      values (indexBy key (l.map f) : ExtTreeMap κ α cmp) := by
  have hl : ((values (indexBy key l : ExtTreeMap κ α cmp)).map f).Pairwise
      (fun a b => cmp (key a) (key b) = .lt) := by
    rw [List.pairwise_map]
    simp only [hf]
    exact keyedBy_indexBy.values_pairwise
  refine eq_of_pairwise_key_lt hl keyedBy_indexBy.values_pairwise (fun a => ?_)
  rw [List.mem_map, keyedBy_indexBy.mem_values_iff, getElem?_indexBy_map hf, Option.map_eq_some_iff]
  constructor
  · rintro ⟨b, hb, rfl⟩
    exact ⟨b, by rw [hf]; exact keyedBy_indexBy.mem_values_iff.mp hb, rfl⟩
  · rintro ⟨b, hb, rfl⟩
    exact ⟨b, mem_values.mpr ⟨_, hb⟩, rfl⟩

/-- **Counting a map** by its keys: those that were present, and the distinct others. -/
theorem KeyedBy.length_values (hm : KeyedBy key m) {present keys : List κ} (hpresent : present.Nodup)
    (hmem : ∀ k, k ∈ m ↔ k ∈ present ∨ k ∈ keys) :
    (values m).length = present.length + ((sortUniq cmp keys).filter (· ∉ present)).length := by
  have hvalues : ((values m).map key).Nodup :=
    List.pairwise_map.mpr (pairwise_key_ne hm.values_pairwise)
  have hnew : ((sortUniq cmp keys).filter (· ∉ present)).Nodup := by
    have hlt : (sortUniq cmp keys).Pairwise (fun a b => cmp (id a) (id b) = .lt) :=
      @sortUniq_pairwise κ cmp _ keys
    exact List.Nodup.filter _ (@pairwise_key_ne κ cmp κ _ id _ hlt)
  have hall : (present ++ (sortUniq cmp keys).filter (· ∉ present)).Nodup := by
    refine List.nodup_append'.mpr ⟨hpresent, hnew, fun k hk hk' => ?_⟩
    exact of_decide_eq_true (List.mem_filter.mp hk').2 hk
  have hperm : ((values m).map key).Perm (present ++ (sortUniq cmp keys).filter (· ∉ present)) := by
    refine (List.perm_ext_iff_of_nodup hvalues hall).mpr (fun k => ?_)
    rw [List.mem_map, ← hm.mem_iff, hmem, List.mem_append, List.mem_filter, mem_sortUniq,
      decide_eq_true_eq]
    tauto
  rw [← List.length_map (f := key), hperm.length_eq, List.length_append]

/-! ### Sets of keys -/

omit [DecidableEq κ]

theorem mem_foldl_insert {s : ExtTreeSet κ cmp} {k : κ} :
    k ∈ l.foldl (fun s a => s.insert (key a)) s ↔ k ∈ s ∨ ∃ a ∈ l, key a = k := by
  induction l generalizing s with
  | nil => simp
  | cons a l ih =>
    rw [List.foldl_cons, ih, List.exists_mem_cons_iff, ← or_assoc]
    simp [or_comm]

/-- Distinct new keys all count. -/
theorem size_foldl_insert {s : ExtTreeSet κ cmp} (hl : l.Pairwise (fun a b => key a ≠ key b))
    (hnew : ∀ a ∈ l, key a ∉ s) :
    (l.foldl (fun s a => s.insert (key a)) s).size = s.size + l.length := by
  induction l generalizing s with
  | nil => rfl
  | cons a l ih =>
    obtain ⟨hne, htail⟩ := List.pairwise_cons.mp hl
    have hnew' : ∀ b ∈ l, key b ∉ s.insert (key a) := by
      intro b hb hmem
      rcases ExtTreeSet.mem_insert.mp hmem with heq | hmem
      · exact hne b hb (LawfulEqCmp.eq_of_compare heq)
      · exact hnew b (List.mem_cons_of_mem _ hb) hmem
    have hsize : (s.insert (key a)).size = s.size + 1 := by
      rw [ExtTreeSet.size_insert, if_neg]
      rw [ExtTreeSet.contains_iff_mem]
      exact hnew a List.mem_cons_self
    rw [List.foldl_cons, ih htail hnew', hsize, List.length_cons]
    omega

end Rationale.Library
