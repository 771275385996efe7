import Mathlib.Data.List.Basic

namespace Rationale.Library

/-!
# Delimited fields

A text written as fields with a delimiter between them or after each of them.

* `append_delimiter_inj`, `suffix_append_cons_iff` — a first field without the delimiter can be read
  back, and a suffix without it is one of the last field;
* `append_eq_append_of_head` — a first part that ends at the first element of another kind can too;
* `terminated`, `cut` — fields that each end in the delimiter, and fields cut at their delimiters;
* `terminated_eq_iff` — the text of terminated fields determines exactly the cut fields;
* `infix_of_mem_splitOn`, `eq_append_of_splitOn_eq_cons` — where a field stands in the text;
* `splitOn_map_replace` — after one delimiter is put for another, the fields of both are fields.
-/

variable {α : Type*} {d : α}

/-- A first field without the delimiter, and the text after it, can be read back. -/
theorem append_delimiter_inj {field field' rest rest' : List α} (h : d ∉ field) (h' : d ∉ field') :
    field ++ d :: rest = field' ++ d :: rest' ↔ field = field' ∧ rest = rest' := by
  induction field generalizing field' with
  | nil =>
    cases field' with
    | nil => simp
    | cons a field' =>
      have hne : d ≠ a := fun heq => h' (heq ▸ List.mem_cons_self)
      simp [hne]
  | cons a field ih =>
    cases field' with
    | nil =>
      have hne : a ≠ d := fun heq => h (heq ▸ List.mem_cons_self)
      simp [hne]
    | cons b field' =>
      have hrest := ih (fun hmem => h (List.mem_cons_of_mem a hmem))
        (fun hmem => h' (List.mem_cons_of_mem b hmem))
      rw [List.cons_append, List.cons_append, List.cons_eq_cons, hrest, List.cons_eq_cons, and_assoc]

/-- A suffix without the delimiter is one of the last field. -/
theorem suffix_append_cons_iff {suf before after : List α} (h : d ∉ suf) :
    suf <:+ before ++ d :: after ↔ suf <:+ after := by
  constructor
  · intro hsuffix
    rcases List.suffix_or_suffix_of_suffix hsuffix (List.suffix_append before (d :: after)) with hle | hle
    · rcases List.suffix_cons_iff.mp hle with heq | hle
      · exact absurd (heq ▸ List.mem_cons_self) h
      · exact hle
    · exact absurd (hle.subset List.mem_cons_self) h
  · intro hsuffix
    exact hsuffix.trans ((List.suffix_cons d after).trans (List.suffix_append before _))

/-- Two parts can be told apart when every element of the first has what no head of a second has. -/
theorem append_eq_append_of_head {p : α → Prop} {xs xs' ys ys' : List α}
    (hxs : ∀ a ∈ xs, p a) (hxs' : ∀ a ∈ xs', p a) (hys : ∀ a ∈ ys.head?, ¬ p a)
    (hys' : ∀ a ∈ ys'.head?, ¬ p a) (h : xs ++ ys = xs' ++ ys') : xs = xs' ∧ ys = ys' := by
  induction xs generalizing xs' with
  | nil =>
    cases xs' with
    | nil => exact ⟨rfl, h⟩
    | cons a xs' =>
      rw [List.nil_append] at h
      exact absurd (hxs' a List.mem_cons_self) (hys a (by rw [h]; rfl))
  | cons a xs ih =>
    cases xs' with
    | nil =>
      rw [List.nil_append] at h
      exact absurd (hxs a List.mem_cons_self) (hys' a (by rw [← h]; rfl))
    | cons a' xs' =>
      obtain ⟨rfl, hrest⟩ := List.cons_eq_cons.mp h
      obtain ⟨rfl, rfl⟩ := ih (fun b hb => hxs b (List.mem_cons_of_mem _ hb))
        (fun b hb => hxs' b (List.mem_cons_of_mem _ hb)) hrest
      exact ⟨rfl, rfl⟩

/-! ### Terminated fields -/

/-- Fields with the delimiter after each of them. -/
def terminated (d : α) (fields : List (List α)) : List α := fields.flatMap (· ++ [d])

@[simp] theorem terminated_append (fields fields' : List (List α)) :
    terminated d (fields ++ fields') = terminated d fields ++ terminated d fields' :=
  List.flatMap_append

variable [BEq α] [LawfulBEq α]

/-- Fields cut at their delimiters. -/
def cut (d : α) (fields : List (List α)) : List (List α) := fields.flatMap (List.splitOn d)

omit [LawfulBEq α] in
@[simp] theorem cut_append (fields fields' : List (List α)) :
    cut d (fields ++ fields') = cut d fields ++ cut d fields' :=
  List.flatMap_append

/-- Nothing is cut in fields without the delimiter. -/
theorem cut_eq_self {fields : List (List α)} (h : ∀ field ∈ fields, d ∉ field) :
    cut d fields = fields := by
  induction fields with
  | nil => rfl
  | cons field fields ih =>
    obtain ⟨hfield, hfields⟩ := List.forall_mem_cons.mp h
    show field.splitOn d ++ cut d fields = field :: fields
    rw [List.splitOn_eq_singleton hfield, ih hfields, List.singleton_append]

theorem splitOn_terminated (fields : List (List α)) :
    (terminated d fields).splitOn d = cut d fields ++ [[]] := by
  induction fields with
  | nil => rfl
  | cons field fields ih =>
    show (field ++ [d] ++ terminated d fields).splitOn d = field.splitOn d ++ cut d fields ++ [[]]
    rw [List.append_assoc, List.singleton_append, List.splitOn_append_cons_self, ih,
      List.append_assoc]

/-- **Terminated fields** have one text exactly when they are cut into the same pieces. -/
theorem terminated_eq_iff {fields fields' : List (List α)} :
    terminated d fields = terminated d fields' ↔ cut d fields = cut d fields' := by
  constructor
  · intro h
    have hsplit := congrArg (List.splitOn d) h
    rw [splitOn_terminated, splitOn_terminated] at hsplit
    exact List.append_cancel_right hsplit
  · intro h
    rw [← @List.intercalate_splitOn _ (terminated d fields) _ _ d, splitOn_terminated, h,
      ← splitOn_terminated, List.intercalate_splitOn]

/-! ### Fields between delimiters -/

theorem notMem_of_mem_splitOn {text field : List α} (h : field ∈ text.splitOn d) : d ∉ field := by
  induction text generalizing field with
  | nil =>
    rw [List.splitOn_nil, List.mem_singleton] at h
    rw [h]
    exact List.not_mem_nil
  | cons a text ih =>
    rw [List.splitOn_cons_eq_if_modifyHead] at h
    split at h
    · rcases List.mem_cons.mp h with rfl | h
      · exact List.not_mem_nil
      · exact ih h
    · next hne =>
      obtain ⟨first, fields, hsplit⟩ := List.exists_cons_of_ne_nil (List.splitOn_ne_nil d text)
      rw [hsplit] at h ih
      rcases List.mem_cons.mp h with rfl | h
      · rw [List.mem_cons, not_or]
        exact ⟨fun heq => hne (beq_iff_eq.mpr heq.symm), ih List.mem_cons_self⟩
      · exact ih (List.mem_cons_of_mem first h)

omit [BEq α] [LawfulBEq α] in
/-- A field stands in the text. -/
theorem infix_intercalate {sep field : List α} {fields : List (List α)} (h : field ∈ fields) :
    field <:+: sep.intercalate fields := by
  induction fields with
  | nil => exact absurd h List.not_mem_nil
  | cons first fields ih =>
    cases fields with
    | nil =>
      exact ⟨[], [], by simp [List.mem_singleton.mp h]⟩
    | cons second fields =>
      rw [List.intercalate_cons_cons]
      rcases List.mem_cons.mp h with rfl | h
      · rw [List.append_assoc]
        exact (List.prefix_append _ _).isInfix
      · exact (ih h).trans (List.suffix_append _ _).isInfix

theorem infix_of_mem_splitOn {text field : List α} (h : field ∈ text.splitOn d) : field <:+: text := by
  have hinfix := @infix_intercalate α [d] field _ h
  rwa [List.intercalate_splitOn] at hinfix

/-- A later field stands behind the first one and its delimiter. -/
theorem eq_append_of_splitOn_eq_cons {text first field : List α} {fields : List (List α)}
    (hsplit : text.splitOn d = first :: fields) (h : field ∈ fields) :
    ∃ before after, text = first ++ d :: (before ++ field ++ after) := by
  obtain ⟨before, after, hrest⟩ := @infix_intercalate α [d] field _ h
  refine ⟨before, after, ?_⟩
  obtain ⟨second, fields, rfl⟩ := List.exists_cons_of_ne_nil (List.ne_nil_of_mem h)
  rw [← @List.intercalate_splitOn _ text _ _ d, hsplit, List.intercalate_cons_cons, hrest,
    List.append_assoc, List.singleton_append]

/-- After one delimiter is put for another, the fields of both are fields. -/
theorem splitOn_map_replace [DecidableEq α] {e : α} (text : List α) :
    (text.map fun a => if a = e then d else a).splitOn d = cut e (text.splitOn d) := by
  induction text with
  | nil => simp [cut]
  | cons a text ih =>
    obtain ⟨first, fields, hsplit⟩ := List.exists_cons_of_ne_nil (List.splitOn_ne_nil d text)
    rw [List.map_cons, List.splitOn_cons_eq_if_modifyHead, List.splitOn_cons_eq_if_modifyHead, ih]
    by_cases had : a = d
    · have hreplaced : (if a = e then d else a) = d := by rw [had, ite_self]
      rw [if_pos (beq_iff_eq.mpr hreplaced), if_pos (beq_iff_eq.mpr had)]
      rfl
    · rw [if_neg (fun h => had (beq_iff_eq.mp h)), hsplit]
      show _ = (a :: first).splitOn e ++ cut e fields
      rw [List.splitOn_cons_eq_if_modifyHead]
      by_cases hae : a = e
      · rw [if_pos hae, if_pos (beq_self_eq_true d), if_pos (beq_iff_eq.mpr hae)]
        rfl
      · rw [if_neg hae, if_neg (fun h => had (beq_iff_eq.mp h)),
          if_neg (fun h => hae (beq_iff_eq.mp h))]
        obtain ⟨first', fields', hsplit'⟩ := List.exists_cons_of_ne_nil (List.splitOn_ne_nil e first)
        show (first.splitOn e ++ cut e fields).modifyHead (List.cons a) = _
        rw [hsplit']
        rfl

end Rationale.Library
