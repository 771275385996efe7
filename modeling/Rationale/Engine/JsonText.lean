import Rationale.Engine.SnapshotId
import Rationale.Library.Delimited
import Rationale.Library.PrefixCode

namespace Rationale.Engine

open Rationale.Library Rationale.Store

/-!
# Reading the hashed JSON back

The compact JSON of records, edges and conflicts determines them.

* `readChar` — one character of a JSON string, read back;
* `tag`, `objectText` — an object's text, field by field;
* `prefixCode_nodeJson`, `prefixCode_edgeJson`, `prefixCode_conflictJson` — each kind of evidence can
  be read off the front of a text;
* `Row`, `rowJson_injective` — the JSON of a row determines the row, its kind included;
* `notMem_rowJson`, `head_rowJson` — it has no NUL in it and starts with a brace.
-/

/-! ### Strings -/

def hexValue (c : Char) : Nat := if c.toNat < 58 then c.toNat - 48 else c.toNat - 87

/-- What follows a backslash. -/
def readEscape : List Char → Option (Char × List Char)
  | '"' :: rest => some ('"', rest)
  | '\\' :: rest => some ('\\', rest)
  | 'n' :: rest => some ('\n', rest)
  | 'r' :: rest => some ('\r', rest)
  | 't' :: rest => some ('\t', rest)
  | 'b' :: rest => some (Char.ofNat 8, rest)
  | 'f' :: rest => some (Char.ofNat 12, rest)
  | 'u' :: '0' :: '0' :: high :: low :: rest =>
      some (Char.ofNat (16 * hexValue high + hexValue low), rest)
  | _ => none

/-- One character of a JSON string. -/
def readChar : List Char → Option (Char × List Char)
  | [] => none
  | c :: rest => if c = '\\' then readEscape rest else some (c, rest)

section Strings

theorem hexValue_hexDigit {n : Nat} (h : n < 16) : hexValue (hexDigit n) = n := by
  have hdigits : ∀ k : Fin 16, hexValue (hexDigit k) = k := by decide
  exact hdigits ⟨n, h⟩

/-- Every character is read back from its escape. -/
theorem readChar_escapeChar (c : Char) (rest : List Char) :
    readChar (escapeChar c ++ rest) = some (c, rest) := by
  unfold escapeChar
  -- the characters with a letter of their own
  split
  · next h => rw [h]; rfl
  split
  · next h => rw [h]; rfl
  split
  · next h => rw [h]; rfl
  split
  · next h => rw [h]; rfl
  split
  · next h => rw [h]; rfl
  split
  · next h =>
    rw [← Char.ofNat_toNat c, h]
    rfl
  split
  · next h =>
    rw [← Char.ofNat_toNat c, h]
    rfl
  -- the other control characters, by two digits, and then those that stand for themselves
  split
  · next h =>
    show some (Char.ofNat (16 * hexValue (hexDigit (c.toNat / 16)) +
      hexValue (hexDigit (c.toNat % 16))), rest) = some (c, rest)
    rw [hexValue_hexDigit (by omega), hexValue_hexDigit (by omega), Nat.div_add_mod,
      Char.ofNat_toNat]
  · next hslash _ _ _ _ _ _ =>
    show (if c = '\\' then readEscape rest else some (c, rest)) = some (c, rest)
    rw [if_neg hslash]

theorem prefixCode_escapeChar : PrefixCode escapeChar := prefixCode_of_read readChar_escapeChar

/-- A character is written after a backslash, or stands for itself. -/
theorem escapeChar_cases (c : Char) :
    (∃ code, escapeChar c = '\\' :: code ∧ '\x00' ∉ code) ∨
      escapeChar c = [c] ∧ c ≠ '"' ∧ c ≠ '\x00' := by
  have hdigit : ∀ k : Fin 16, '\x00' ≠ hexDigit k := by decide
  unfold escapeChar
  split
  · exact Or.inl ⟨_, rfl, by decide⟩
  next hquote =>
  split
  · exact Or.inl ⟨_, rfl, by decide⟩
  split
  · exact Or.inl ⟨_, rfl, by decide⟩
  split
  · exact Or.inl ⟨_, rfl, by decide⟩
  split
  · exact Or.inl ⟨_, rfl, by decide⟩
  split
  · exact Or.inl ⟨_, rfl, by decide⟩
  split
  · exact Or.inl ⟨_, rfl, by decide⟩
  -- neither digit of a control character is a NUL
  split
  · next h =>
    have hhigh := hdigit ⟨c.toNat / 16, by omega⟩
    have hlow := hdigit ⟨c.toNat % 16, by omega⟩
    exact Or.inl ⟨_, rfl, by simp [hhigh, hlow]⟩
  · next h => exact Or.inr ⟨rfl, hquote, by rintro rfl; exact h (by decide)⟩

/-- An escape is not empty and does not start with a quote. -/
theorem escapeChar_head (c : Char) : ∃ first rest, escapeChar c = first :: rest ∧ first ≠ '"' := by
  rcases escapeChar_cases c with ⟨code, hcode, -⟩ | ⟨hself, hquote, -⟩
  · exact ⟨_, _, hcode, by decide⟩
  · exact ⟨_, _, hself, hquote⟩

/-- No character is written as a NUL. -/
theorem notMem_escapeChar (c : Char) : '\x00' ∉ escapeChar c := by
  rcases escapeChar_cases c with ⟨code, hcode, hnul⟩ | ⟨hself, -, hnul⟩
  · rw [hcode]
    simp [hnul]
  · rw [hself]
    simp [hnul.symm]

theorem toList_jsonString (text : String) :
    (jsonString text).toList = '"' :: (text.toList.flatMap escapeChar ++ ['"']) := by
  simp [jsonString]

theorem prefixCode_jsonString : PrefixCode (fun text => (jsonString text).toList) := by
  intro text text' rest rest' heq
  have hstrings := (prefixCode_escapeChar.flatMap_stop escapeChar_head).comap
    (fun (_ _ : String) h => String.toList_injective h)
  simp only [toList_jsonString, List.cons_append, List.cons.injEq, true_and] at heq
  exact hstrings text text' rest rest' heq

theorem notMem_jsonString (text : String) : '\x00' ∉ (jsonString text).toList := by
  rw [toList_jsonString]
  simp [notMem_escapeChar]

end Strings

/-! ### Objects -/

/-- A field's name and the colon after it. -/
def key (name : String) : List Char := '"' :: (name.toList ++ ['"', ':'])

/-- What stands before the value of a field that is not the first one. -/
def tag (name : String) : List Char := ',' :: key name

def stringText (text : String) : List Char := (jsonString text).toList

section Objects

@[simp] theorem toList_jsonObject (first : String) (fields : List (Option String)) :
    (jsonObject (some first :: fields)).toList =
      '{' :: (first.toList ++ (fields.flatMap (optional [','] String.toList) ++ ['}'])) := by
  -- an absent field leaves no comma behind
  have hfields : [','].intercalate ((first :: fields.filterMap id).map String.toList) =
      first.toList ++ fields.flatMap (optional [','] String.toList) := by
    induction fields generalizing first with
    | nil => simp
    | cons field fields ih =>
      cases field with
      | none => exact ih first
      | some next =>
        have hnext := ih next
        rw [List.map_cons] at hnext
        rw [List.filterMap_cons_some (by rfl), List.map_cons, List.map_cons,
          List.intercalate_cons_cons, hnext, List.append_assoc]
        rfl
  show (_ ++ ",".intercalate (first :: fields.filterMap id) ++ _).toList = _
  rw [String.toList_append, String.toList_append, String.toList_intercalate]
  show ['{'] ++ [','].intercalate _ ++ ['}'] = _
  rw [hfields]
  simp

/-- A present field, first and not first. -/
theorem toList_field (name value : String) :
    ("\"" ++ name ++ "\":" ++ value).toList = key name ++ value.toList := by
  simp [key]

@[simp] theorem optional_jsonField (name value : String) :
    optional [','] String.toList (jsonField name value) = tag name ++ value.toList := by
  show [','] ++ ("\"" ++ name ++ "\":" ++ value).toList = _
  rw [toList_field]
  rfl

@[simp] theorem optional_jsonOption (name : String) (value : Option String) :
    optional [','] String.toList (jsonOption name value) = optional (tag name) stringText value := by
  cases value with
  | none => rfl
  | some text => exact optional_jsonField name (jsonString text)

/-- A name is read before what comes after it. -/
theorem name_eq_of_tag {name name' : String} {rest : List Char} (h : '"' ∉ name.toList)
    (h' : '"' ∉ name'.toList) (hstart : tag name <+: tag name' ++ rest) : name = name' := by
  obtain ⟨more, hmore⟩ := hstart
  have hnames : name.toList ++ '"' :: (':' :: more) = name'.toList ++ '"' :: (':' :: rest) := by
    simpa [tag, key] using hmore
  exact String.toList_injective ((append_delimiter_inj h h').mp hnames).1

end Objects

/-! ### Enumerations -/

section Enumerations

theorem prefixCode_sourceKindJson : PrefixCode (fun kind => (sourceKindJson kind).toList) := by
  refine prefixCode_iff.mpr (fun kind kind' h => ?_)
  cases kind <;> cases kind' <;> first | rfl | exact absurd h (by decide)

theorem prefixCode_nodeKindJson : PrefixCode (fun kind => (nodeKindJson kind).toList) := by
  refine prefixCode_iff.mpr (fun kind kind' h => ?_)
  cases kind <;> cases kind' <;> first | rfl | exact absurd h (by decide)

theorem prefixCode_edgeKindJson : PrefixCode (fun kind => (edgeKindJson kind).toList) := by
  refine prefixCode_iff.mpr (fun kind kind' h => ?_)
  cases kind <;> cases kind' <;> first | rfl | exact absurd h (by decide)

theorem prefixCode_statusJson : PrefixCode (fun status => (statusJson status).toList) := by
  refine prefixCode_iff.mpr (fun status status' h => ?_)
  cases status <;> cases status' <;> first | rfl | exact absurd h (by decide)

/-- No kind of record is written like a kind of edge. -/
theorem nodeKindJson_append_ne (kind : NodeKind) (kind' : EdgeKind) (rest rest' : List Char) :
    (nodeKindJson kind).toList ++ rest ≠ (edgeKindJson kind').toList ++ rest' := by
  intro heq
  have hleft : (nodeKindJson kind).toList <+: (edgeKindJson kind').toList ++ rest' :=
    heq ▸ List.prefix_append _ _
  -- one of the two names would continue the other
  rcases List.prefix_or_prefix_of_prefix hleft (List.prefix_append _ _) with h | h
  · cases kind <;> cases kind' <;> exact absurd h (by decide)
  · cases kind <;> cases kind' <;> exact absurd h (by decide)

end Enumerations

/-! ### Evidence -/

section Evidence

theorem originJson_append (origin : Origin) (rest : List Char) :
    (originJson origin).toList ++ rest = '{' :: (key "source_kind" ++
      ((sourceKindJson origin.sourceKind).toList ++ (tag "locator" ++ (stringText origin.locator ++
        (optional (tag "revision") stringText origin.revision ++
          (optional (tag "observed_at") stringText origin.observedAt ++ ('}' :: rest))))))) := by
  show (jsonObject (some _ :: _)).toList ++ rest = _
  rw [toList_jsonObject, toList_field]
  simp [stringText]

theorem nodeJson_append (node : EvidenceNode) (rest : List Char) :
    (nodeJson node).toList ++ rest = '{' :: (key "id" ++ (stringText node.id ++
      (tag "kind" ++ ((nodeKindJson node.kind).toList ++
        (tag "status" ++ ((statusJson node.status).toList ++
          (optional (tag "subject_id") stringText node.subjectId ++
            (optional (tag "outcome_id") stringText node.outcomeId ++
              (tag "origin" ++ ((originJson node.origin).toList ++ ('}' :: rest))))))))))) := by
  show (jsonObject (some _ :: _)).toList ++ rest = _
  rw [toList_jsonObject, toList_field]
  simp [stringText]

theorem edgeJson_append (edge : EvidenceEdge) (rest : List Char) :
    (edgeJson edge).toList ++ rest = '{' :: (key "id" ++ (stringText edge.id ++
      (tag "kind" ++ ((edgeKindJson edge.kind).toList ++
        (tag "source_id" ++ (stringText edge.sourceId ++
          (tag "target_id" ++ (stringText edge.targetId ++
            (tag "status" ++ ((statusJson edge.status).toList ++
              (tag "origin" ++ ((originJson edge.origin).toList ++ ('}' :: rest))))))))))))) := by
  show (jsonObject (some _ :: _)).toList ++ rest = _
  rw [toList_jsonObject, toList_field]
  simp [stringText]

theorem conflictJson_append (conflict : Conflict) (rest : List Char) :
    (conflictJson conflict).toList ++ rest = '{' :: (key "left_node_id" ++
      (stringText conflict.leftNodeId ++ (tag "right_node_id" ++ (stringText conflict.rightNodeId ++
        (tag "rule_id" ++ (stringText conflict.ruleId ++ ('}' :: rest))))))) := by
  show (jsonObject (some _ :: _)).toList ++ rest = _
  rw [toList_jsonObject, toList_field]
  simp [stringText]

/-- An optional field does not hide the start of what follows it. -/
theorem not_tag_optional {name name' : String} {value : Option String} {rest : List Char}
    (h : '"' ∉ name.toList) (h' : '"' ∉ name'.toList) (hne : name ≠ name')
    (hrest : ¬ tag name <+: rest) :
    ¬ tag name <+: optional (tag name') stringText value ++ rest := by
  cases value with
  | none => exact hrest
  | some text =>
    intro hstart
    have htag : tag name <+: tag name' ++ (stringText text ++ rest) := by
      rw [← List.append_assoc]
      exact hstart
    exact hne (name_eq_of_tag h h' htag)

theorem prefixCode_originJson : PrefixCode (fun origin => (originJson origin).toList) := by
  intro origin origin' rest rest' heq
  simp only [originJson_append, List.cons.injEq, true_and] at heq
  -- the object is closed after its last field
  have hend : ∀ rest : List Char, ¬ tag "observed_at" <+: '}' :: rest := by
    intro rest h
    exact absurd (List.cons_prefix_cons.mp h).1 (by decide)
  have hrevision : ∀ (observedAt : Option String) (rest : List Char), ¬ tag "revision" <+:
      optional (tag "observed_at") stringText observedAt ++ ('}' :: rest) := by
    intro observedAt rest
    refine not_tag_optional (by decide) (by decide) (by decide) (fun h => ?_)
    exact absurd (List.cons_prefix_cons.mp h).1 (by decide)
  obtain ⟨hkind, heq⟩ := prefixCode_sourceKindJson _ _ _ _ (List.append_cancel_left heq)
  obtain ⟨hlocator, heq⟩ := prefixCode_jsonString _ _ _ _ (List.append_cancel_left heq)
  obtain ⟨hrev, heq⟩ := prefixCode_jsonString.optional_append (hrevision _ _) (hrevision _ _) heq
  obtain ⟨hobserved, heq⟩ := prefixCode_jsonString.optional_append (hend _) (hend _) heq
  refine ⟨?_, (List.cons.inj heq).2⟩
  cases origin
  cases origin'
  simp_all

theorem prefixCode_nodeJson : PrefixCode (fun node => (nodeJson node).toList) := by
  intro node node' rest rest' heq
  simp only [nodeJson_append, List.cons.injEq, true_and] at heq
  -- what follows an optional field has another name
  have houtcome : ∀ rest : List Char, ¬ tag "outcome_id" <+: tag "origin" ++ rest := by
    intro rest h
    exact absurd (name_eq_of_tag (by decide) (by decide) h) (by decide)
  have hsubject : ∀ (outcomeId : Option String) (rest : List Char), ¬ tag "subject_id" <+:
      optional (tag "outcome_id") stringText outcomeId ++ (tag "origin" ++ rest) := by
    intro outcomeId rest
    refine not_tag_optional (by decide) (by decide) (by decide) (fun h => ?_)
    exact absurd (name_eq_of_tag (by decide) (by decide) h) (by decide)
  obtain ⟨hid, heq⟩ := prefixCode_jsonString _ _ _ _ (List.append_cancel_left heq)
  obtain ⟨hkind, heq⟩ := prefixCode_nodeKindJson _ _ _ _ (List.append_cancel_left heq)
  obtain ⟨hstatus, heq⟩ := prefixCode_statusJson _ _ _ _ (List.append_cancel_left heq)
  obtain ⟨hsub, heq⟩ := prefixCode_jsonString.optional_append (hsubject _ _) (hsubject _ _) heq
  obtain ⟨hout, heq⟩ := prefixCode_jsonString.optional_append (houtcome _) (houtcome _) heq
  obtain ⟨horigin, heq⟩ := prefixCode_originJson _ _ _ _ (List.append_cancel_left heq)
  refine ⟨?_, (List.cons.inj heq).2⟩
  cases node
  cases node'
  simp_all

theorem prefixCode_edgeJson : PrefixCode (fun edge => (edgeJson edge).toList) := by
  intro edge edge' rest rest' heq
  simp only [edgeJson_append, List.cons.injEq, true_and] at heq
  obtain ⟨hid, heq⟩ := prefixCode_jsonString _ _ _ _ (List.append_cancel_left heq)
  obtain ⟨hkind, heq⟩ := prefixCode_edgeKindJson _ _ _ _ (List.append_cancel_left heq)
  obtain ⟨hsource, heq⟩ := prefixCode_jsonString _ _ _ _ (List.append_cancel_left heq)
  obtain ⟨htarget, heq⟩ := prefixCode_jsonString _ _ _ _ (List.append_cancel_left heq)
  obtain ⟨hstatus, heq⟩ := prefixCode_statusJson _ _ _ _ (List.append_cancel_left heq)
  obtain ⟨horigin, heq⟩ := prefixCode_originJson _ _ _ _ (List.append_cancel_left heq)
  refine ⟨?_, (List.cons.inj heq).2⟩
  cases edge
  cases edge'
  simp_all

theorem prefixCode_conflictJson : PrefixCode (fun conflict => (conflictJson conflict).toList) := by
  intro conflict conflict' rest rest' heq
  simp only [conflictJson_append, List.cons.injEq, true_and] at heq
  obtain ⟨hleft, heq⟩ := prefixCode_jsonString _ _ _ _ (List.append_cancel_left heq)
  obtain ⟨hright, heq⟩ := prefixCode_jsonString _ _ _ _ (List.append_cancel_left heq)
  obtain ⟨hrule, heq⟩ := prefixCode_jsonString _ _ _ _ (List.append_cancel_left heq)
  refine ⟨?_, (List.cons.inj heq).2⟩
  cases conflict
  cases conflict'
  simp_all

end Evidence

/-! ### The rows of a snapshot -/

/-- One record, edge or conflict. -/
inductive Row where
  | node (node : EvidenceNode)
  | edge (edge : EvidenceEdge)
  | conflict (conflict : Conflict)
  deriving DecidableEq

def rowJson : Row → String
  | .node node => nodeJson node
  | .edge edge => edgeJson edge
  | .conflict conflict => conflictJson conflict

section Rows

/-- A record and an edge are told apart by their kinds. -/
theorem nodeJson_ne_edgeJson (node : EvidenceNode) (edge : EvidenceEdge) :
    nodeJson node ≠ edgeJson edge := by
  intro h
  have heq : (nodeJson node).toList ++ [] = (edgeJson edge).toList ++ [] := by rw [h]
  simp only [nodeJson_append, edgeJson_append, List.cons.injEq, true_and] at heq
  obtain ⟨-, heq⟩ := prefixCode_jsonString _ _ _ _ (List.append_cancel_left heq)
  exact nodeKindJson_append_ne _ _ _ _ (List.append_cancel_left heq)

/-- Objects that start with different names are different. -/
theorem key_append_ne {name name' : String} {rest rest' : List Char} (h : '"' ∉ name.toList)
    (h' : '"' ∉ name'.toList) (hne : name ≠ name') : key name ++ rest ≠ key name' ++ rest' := by
  intro heq
  have hstart : tag name <+: tag name' ++ rest' := ⟨rest, congrArg (List.cons ',') heq⟩
  exact hne (name_eq_of_tag h h' hstart)

theorem nodeJson_ne_conflictJson (node : EvidenceNode) (conflict : Conflict) :
    nodeJson node ≠ conflictJson conflict := by
  intro h
  have heq : (nodeJson node).toList ++ [] = (conflictJson conflict).toList ++ [] := by rw [h]
  rw [nodeJson_append, conflictJson_append] at heq
  exact key_append_ne (by decide) (by decide) (by decide) (List.cons.inj heq).2

theorem edgeJson_ne_conflictJson (edge : EvidenceEdge) (conflict : Conflict) :
    edgeJson edge ≠ conflictJson conflict := by
  intro h
  have heq : (edgeJson edge).toList ++ [] = (conflictJson conflict).toList ++ [] := by rw [h]
  rw [edgeJson_append, conflictJson_append] at heq
  exact key_append_ne (by decide) (by decide) (by decide) (List.cons.inj heq).2

/-- **A row is determined by its JSON.** -/
theorem rowJson_injective : Function.Injective rowJson := by
  intro row row' h
  have hlist : (rowJson row).toList = (rowJson row').toList := congrArg String.toList h
  cases row with
  | node node =>
    cases row' with
    | node node' => exact congrArg Row.node (prefixCode_nodeJson.injective hlist)
    | edge edge => exact absurd h (nodeJson_ne_edgeJson node edge)
    | conflict conflict => exact absurd h (nodeJson_ne_conflictJson node conflict)
  | edge edge =>
    cases row' with
    | node node => exact absurd h.symm (nodeJson_ne_edgeJson node edge)
    | edge edge' => exact congrArg Row.edge (prefixCode_edgeJson.injective hlist)
    | conflict conflict => exact absurd h (edgeJson_ne_conflictJson edge conflict)
  | conflict conflict =>
    cases row' with
    | node node => exact absurd h.symm (nodeJson_ne_conflictJson node conflict)
    | edge edge => exact absurd h.symm (edgeJson_ne_conflictJson edge conflict)
    | conflict conflict' => exact congrArg Row.conflict (prefixCode_conflictJson.injective hlist)

theorem notMem_optional {name : String} (h : '\x00' ∉ tag name) (value : Option String) :
    '\x00' ∉ optional (tag name) stringText value := by
  cases value with
  | none => exact List.not_mem_nil
  | some text => exact fun hmem => (List.mem_append.mp hmem).elim h (notMem_jsonString text)

theorem notMem_originJson (origin : Origin) : '\x00' ∉ (originJson origin).toList := by
  have hkind : '\x00' ∉ (sourceKindJson origin.sourceKind).toList := by
    cases origin.sourceKind <;> decide
  have hstring : ∀ text, '\x00' ∉ stringText text := notMem_jsonString
  rw [← List.append_nil (originJson origin).toList, originJson_append]
  simp only [List.mem_cons, List.mem_append, not_or]
  exact ⟨by decide, by decide, hkind, by decide, hstring _, notMem_optional (by decide) _,
    notMem_optional (by decide) _, by decide, List.not_mem_nil⟩

/-- **No row has a NUL in its JSON.** -/
theorem notMem_rowJson (row : Row) : '\x00' ∉ (rowJson row).toList := by
  have hstring : ∀ text, '\x00' ∉ stringText text := notMem_jsonString
  have hstatus : ∀ status, '\x00' ∉ (statusJson status).toList := by
    intro status
    cases status <;> decide
  rw [← List.append_nil (rowJson row).toList]
  -- field by field: names and enumerations are literals, and strings are escaped
  cases row with
  | node node =>
    have hkind : '\x00' ∉ (nodeKindJson node.kind).toList := by cases node.kind <;> decide
    rw [rowJson, nodeJson_append]
    simp only [List.mem_cons, List.mem_append, not_or]
    exact ⟨by decide, by decide, hstring _, by decide, hkind, by decide, hstatus _,
      notMem_optional (by decide) _, notMem_optional (by decide) _, by decide, notMem_originJson _,
      by decide, List.not_mem_nil⟩
  | edge edge =>
    have hkind : '\x00' ∉ (edgeKindJson edge.kind).toList := by cases edge.kind <;> decide
    rw [rowJson, edgeJson_append]
    simp only [List.mem_cons, List.mem_append, not_or]
    exact ⟨by decide, by decide, hstring _, by decide, hkind, by decide, hstring _, by decide,
      hstring _, by decide, hstatus _, by decide, notMem_originJson _, by decide, List.not_mem_nil⟩
  | conflict conflict =>
    rw [rowJson, conflictJson_append]
    simp only [List.mem_cons, List.mem_append, not_or]
    exact ⟨by decide, by decide, hstring _, by decide, hstring _, by decide, hstring _, by decide,
      List.not_mem_nil⟩

/-- Rows are written as objects. -/
theorem head_rowJson (row : Row) : (rowJson row).toList.head? = some '{' := by
  rw [← List.append_nil (rowJson row).toList]
  cases row with
  | node node =>
    rw [rowJson, nodeJson_append]
    rfl
  | edge edge =>
    rw [rowJson, edgeJson_append]
    rfl
  | conflict conflict =>
    rw [rowJson, conflictJson_append]
    rfl

end Rows

end Rationale.Engine
