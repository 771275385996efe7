import Mathlib.Data.List.Nodup
import Rationale.Library.SortUniq

namespace Rationale.Library

open Std

/-!
# JSON trees up to the order of their keys

* `Json` — a tree as a parser returns it, with every field of every object in document order;
* `Json.sortKeys` — the same tree with the keys of every object sorted;
* `Json.UniqueKeys` — no object of the tree repeats a key;
* `Json.object` — an object with sorted keys;
* `sortKeys_assoc_eq_object_iff` — when a tree is a given object, up to the order of keys: they
  look up the same under every key.
-/

/-- Numbers are exact integers, integer literals too large for them, and other literals. -/
inductive Json where
  | null
  | bool (value : Bool)
  | int (value : Int)
  | intlit (literal : String)
  | float (literal : String)
  | string (value : String)
  | list (values : List Json)
  | assoc (fields : List (String × Json))

variable {α : Type*}

/-- Fields in increasing key order. -/
def sortFields (fields : List (String × α)) : List (String × α) := sortBy (compareOn Prod.fst) fields

namespace Json

/-- An object with its keys in order. -/
def object (fields : List (String × Json)) : Json := .assoc (sortFields fields)

mutual

/-- Sort the keys of every object in the tree. -/
def sortKeys : Json → Json
  | .list values => .list (sortKeysList values)
  | .assoc fields => object (sortKeysFields fields)
  | .null => .null
  | .bool value => .bool value
  | .int value => .int value
  | .intlit literal => .intlit literal
  | .float literal => .float literal
  | .string value => .string value

def sortKeysList : List Json → List Json
  | [] => []
  | value :: values => value.sortKeys :: sortKeysList values

def sortKeysFields : List (String × Json) → List (String × Json)
  | [] => []
  | (name, value) :: fields => (name, value.sortKeys) :: sortKeysFields fields

end

mutual

/-- No object in the tree has a key twice. -/
def UniqueKeys : Json → Prop
  | .list values => UniqueKeysList values
  | .assoc fields => (fields.map Prod.fst).Nodup ∧ UniqueKeysFields fields
  | .null => True
  | .bool _ => True
  | .int _ => True
  | .intlit _ => True
  | .float _ => True
  | .string _ => True

def UniqueKeysList : List Json → Prop
  | [] => True
  | value :: values => value.UniqueKeys ∧ UniqueKeysList values

def UniqueKeysFields : List (String × Json) → Prop
  | [] => True
  | (_, value) :: fields => value.UniqueKeys ∧ UniqueKeysFields fields

end

theorem sortKeysList_eq_map (values : List Json) : sortKeysList values = values.map sortKeys := by
  induction values with
  | nil => rfl
  | cons value values ih => rw [sortKeysList, ih, List.map_cons]

theorem sortKeysFields_eq_map (fields : List (String × Json)) :
    sortKeysFields fields = fields.map fun field => (field.1, field.2.sortKeys) := by
  induction fields with
  | nil => rfl
  | cons field fields ih => rw [sortKeysFields, ih, List.map_cons]

theorem uniqueKeysList_iff {values : List Json} :
    UniqueKeysList values ↔ ∀ value ∈ values, value.UniqueKeys := by
  induction values with
  | nil => simp [UniqueKeysList]
  | cons value values ih => simp [UniqueKeysList, ih]

theorem uniqueKeysFields_iff {fields : List (String × Json)} :
    UniqueKeysFields fields ↔ ∀ field ∈ fields, field.2.UniqueKeys := by
  induction fields with
  | nil => simp [UniqueKeysFields]
  | cons field fields ih => simp [UniqueKeysFields, ih]

@[simp] theorem sortKeys_list (values : List Json) :
    (list values).sortKeys = .list (values.map sortKeys) := by
  rw [sortKeys, sortKeysList_eq_map]

@[simp] theorem sortKeys_assoc (fields : List (String × Json)) : (assoc fields).sortKeys =
    object (fields.map fun field => (field.1, field.2.sortKeys)) := by
  rw [sortKeys, sortKeysFields_eq_map]

@[simp] theorem sortKeys_string (value : String) : (string value).sortKeys = .string value := by
  rw [sortKeys]

@[simp] theorem sortKeys_int (value : Int) : (int value).sortKeys = .int value := by
  rw [sortKeys]

/-! ### Scalars and lists -/

theorem sortKeys_eq_string_iff {json : Json} {value : String} :
    json.sortKeys = .string value ↔ json = .string value := by
  cases json <;> simp [sortKeys, object]

theorem sortKeys_eq_int_iff {json : Json} {value : Int} :
    json.sortKeys = .int value ↔ json = .int value := by
  cases json <;> simp [sortKeys, object]

theorem sortKeys_eq_list_iff {json : Json} {values : List Json} :
    json.sortKeys = .list values ↔ ∃ items, json = .list items ∧ items.map sortKeys = values := by
  cases json <;> simp [sortKeys, sortKeysList_eq_map, object]

theorem sortKeys_eq_object {json : Json} {fields : List (String × Json)}
    (h : json.sortKeys = object fields) : ∃ values, json = .assoc values := by
  cases json <;> simp_all [sortKeys, object]

end Json

/-! ### Objects -/

section Fields

variable {fields fields' : List (String × α)}

theorem mem_of_lookup_eq_some {name : String} {a : α} (h : fields.lookup name = some a) :
    (name, a) ∈ fields := by
  induction fields with
  | nil => exact nomatch h
  | cons field fields ih =>
    obtain ⟨name', a'⟩ := field
    rw [List.lookup_cons] at h
    by_cases heq : name = name'
    · subst heq
      rw [beq_self_eq_true] at h
      obtain rfl := Option.some.inj h
      exact List.mem_cons_self
    · rw [beq_eq_false_iff_ne.mpr heq] at h
      exact List.mem_cons_of_mem _ (ih h)

theorem lookup_eq_none_iff {name : String} :
    fields.lookup name = none ↔ name ∉ fields.map Prod.fst := by
  induction fields with
  | nil => simp
  | cons field fields ih =>
    rw [List.lookup_cons]
    by_cases heq : name = field.1
    · simp [heq]
    · rw [beq_eq_false_iff_ne.mpr heq, ih]
      simp [heq]

/-- Under distinct keys, lookup is membership. -/
theorem lookup_eq_some_iff (h : (fields.map Prod.fst).Nodup) {name : String} {a : α} :
    fields.lookup name = some a ↔ (name, a) ∈ fields := by
  refine ⟨mem_of_lookup_eq_some, fun hmem => ?_⟩
  cases hlookup : fields.lookup name with
  | none => exact absurd (List.mem_map_of_mem hmem) (lookup_eq_none_iff.mp hlookup)
  | some b =>
    have hpair := List.inj_on_of_nodup_map h hmem (mem_of_lookup_eq_some hlookup) rfl
    rw [(Prod.mk.inj hpair).2]

/-- Lists of fields with distinct keys are the same up to order when they look up the same. -/
theorem perm_iff_lookup (h : (fields.map Prod.fst).Nodup) (h' : (fields'.map Prod.fst).Nodup) :
    fields.Perm fields' ↔ ∀ name, fields.lookup name = fields'.lookup name := by
  constructor
  · intro hperm name
    apply Option.ext
    intro a
    rw [lookup_eq_some_iff h, lookup_eq_some_iff h', hperm.mem_iff]
  · intro hlookup
    refine (List.perm_ext_iff_of_nodup h.of_map h'.of_map).mpr (fun field => ?_)
    obtain ⟨name, a⟩ := field
    rw [← lookup_eq_some_iff h, ← lookup_eq_some_iff h', hlookup]

/-- Sorting tells fields with distinct keys apart. -/
theorem sortFields_eq_iff (h' : (fields'.map Prod.fst).Nodup) :
    sortFields fields = sortFields fields' ↔ fields.Perm fields' := by
  constructor
  · intro h
    have hperm : (sortFields fields).Perm fields := sortBy_perm fields
    rw [h] at hperm
    exact hperm.symm.trans (sortBy_perm fields')
  · intro hperm
    have h : (fields.map Prod.fst).Nodup := (hperm.map Prod.fst).nodup_iff.mpr h'
    refine sortBy_eq_of_perm hperm (fun a ha b hb heq => ?_)
    exact List.inj_on_of_nodup_map h ha hb (Std.compare_eq_iff_eq.mp heq)

theorem lookup_map {β : Type*} (f : String → α → β) (name : String) :
    (fields.map fun field => (field.1, f field.1 field.2)).lookup name =
      (fields.lookup name).map (f name) := by
  induction fields with
  | nil => rfl
  | cons field fields ih =>
    rw [List.map_cons, List.lookup_cons, List.lookup_cons, ih]
    by_cases h : name = field.1
    · subst h
      simp
    · rw [beq_eq_false_iff_ne.mpr h]

theorem lookup_filter (h : (fields.map Prod.fst).Nodup) (p : String × α → Bool) (name : String) :
    (fields.filter p).lookup name = (fields.lookup name).filter fun a => p (name, a) := by
  have hfilter : ((fields.filter p).map Prod.fst).Nodup :=
    h.sublist (List.filter_sublist.map Prod.fst)
  apply Option.ext
  intro a
  rw [lookup_eq_some_iff hfilter, List.mem_filter, Option.filter_eq_some_iff, lookup_eq_some_iff h]

theorem lookup_append (name : String) :
    (fields ++ fields').lookup name = (fields.lookup name).or (fields'.lookup name) := by
  induction fields with
  | nil => simp
  | cons field fields ih =>
    rw [List.cons_append, List.lookup_cons, List.lookup_cons, ih]
    cases name == field.1 <;> rfl

end Fields

namespace Json

/-- **A tree is a given object up to the order of keys** exactly when it repeats no key and looks up
    the same, up to the order of keys, under every key. -/
theorem sortKeys_assoc_eq_object_iff {values fields : List (String × Json)}
    (hfields : (fields.map Prod.fst).Nodup) :
    (assoc values).sortKeys = object fields ↔ (values.map Prod.fst).Nodup ∧
      ∀ name, (values.lookup name).map sortKeys = fields.lookup name := by
  let sorted := values.map fun field => (field.1, field.2.sortKeys)
  have hkeys : sorted.map Prod.fst = values.map Prod.fst := by
    simp only [sorted, List.map_map]
    rfl
  have hlookup : ∀ name, sorted.lookup name = (values.lookup name).map sortKeys :=
    lookup_map fun _ => sortKeys
  have hperm : (assoc values).sortKeys = object fields ↔ sorted.Perm fields := by
    rw [sortKeys_assoc, object, object, assoc.injEq, sortFields_eq_iff hfields]
  rw [hperm]
  constructor
  · intro h
    have hnodup : (sorted.map Prod.fst).Nodup := (h.map Prod.fst).nodup_iff.mpr hfields
    refine ⟨hkeys ▸ hnodup, fun name => ?_⟩
    rw [← hlookup, (perm_iff_lookup hnodup hfields).mp h name]
  · rintro ⟨hnodup, hsame⟩
    rw [perm_iff_lookup (hkeys ▸ hnodup) hfields]
    exact fun name => (hlookup name).trans (hsame name)

/-- It then has the keys of that object, and no others. -/
theorem mem_keys_iff_of_sortKeys {values fields : List (String × Json)} {name : String}
    (hfields : (fields.map Prod.fst).Nodup) (h : (assoc values).sortKeys = object fields) :
    name ∈ values.map Prod.fst ↔ name ∈ fields.map Prod.fst := by
  have hlookup := ((sortKeys_assoc_eq_object_iff hfields).mp h).2 name
  rw [← not_iff_not, ← lookup_eq_none_iff, ← lookup_eq_none_iff, ← hlookup, Option.map_eq_none_iff]

/-- For an object whose keys are among `names`, it is enough to look those up. -/
theorem sortKeys_assoc_eq_object_of_names (names : List String)
    {values fields : List (String × Json)} (hfields : (fields.map Prod.fst).Nodup)
    (hnames : ∀ name ∈ fields.map Prod.fst, name ∈ names)
    (hvalues : (values.map Prod.fst).Nodup) (hknown : ∀ name ∈ values.map Prod.fst, name ∈ names)
    (h : ∀ name ∈ names, (values.lookup name).map sortKeys = fields.lookup name) :
    (assoc values).sortKeys = object fields := by
  refine (sortKeys_assoc_eq_object_iff hfields).mpr ⟨hvalues, fun name => ?_⟩
  by_cases hname : name ∈ names
  · exact h name hname
  · -- neither side has another key
    rw [lookup_eq_none_iff.mpr (fun hmem => hname (hknown name hmem)),
      lookup_eq_none_iff.mpr (fun hmem => hname (hnames name hmem))]
    rfl

/-- An object whose fields are sorted all the way down is unchanged by sorting. -/
theorem sortKeys_object {fields : List (String × Json)}
    (h : ∀ field ∈ fields, field.2.sortKeys = field.2) : (object fields).sortKeys = object fields := by
  have hmap : ((sortFields fields).map fun field => (field.1, field.2.sortKeys)) =
      sortFields fields := by
    conv_rhs => rw [← List.map_id (sortFields fields)]
    refine List.map_congr_left (fun field hfield => ?_)
    rw [h field (mem_sortBy.mp hfield)]
    rfl
  have hsorted : sortFields (sortFields fields) = sortFields fields :=
    sortBy_eq_self (sortBy_pairwise fields)
  rw [object, sortKeys_assoc, hmap, object, hsorted]

end Json

end Rationale.Library
