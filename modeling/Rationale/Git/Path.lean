import Rationale.Library.Fallible
import Rationale.Library.Delimited

namespace Rationale.Git

open Rationale.Library

/-!
# Target paths

`normalize_path` and `path_string` of `crates/rationale-git/src/local.rs`, over Unix paths.

* `components`, `normalizePath` — the translation;
* `names`, `normalizePath_eq_ok` — the accepted paths and their two results;
* `cut`, `splitOn_display` — the parts of the displayed path are those between slashes and
  backslashes;
* `normalizePath_stable_iff` — the display is confined, stable and one file's exactly when the parts
  are proper and no other path has them.
-/

/-! ### Paths -/

/-- One unit of a Unix path: a character, or a byte that is not part of one. -/
inductive OsUnit where
  | char (c : Char)
  | stray (byte : UInt8)
  deriving DecidableEq, Repr

/-- The path that a text names. -/
def osText (text : String) : List OsUnit := text.toList.map .char

/-- `Path::to_str`. -/
def toStr (path : List OsUnit) : Option (List Char) :=
  path.mapM fun unit => match unit with
    | .char c => some c
    | .stray _ => none

def separator : OsUnit := .char '/'

/-- `std::path::Component` on Unix. -/
inductive Component where
  | rootDir
  | curDir
  | parentDir
  | normal (name : List OsUnit)
  deriving DecidableEq, Repr

/-- The component of a part between separators; `.` and nothing are none. -/
def component (part : List OsUnit) : Option Component :=
  if part = [] ∨ part = osText "." then none
  else if part = osText ".." then some .parentDir
  else some (.normal part)

/-- `Path::components`: a leading `.` is a component of its own. -/
def components (path : List OsUnit) : List Component :=
  let parts := path.splitOn separator
  let first : List Component :=
    if path.head? = some separator then [.rootDir]
    else if parts.head? = some (osText ".") then [.curDir]
    else []
  first ++ parts.filterMap component

/-- `PathBuf::push` of a single component. -/
def push (path name : List OsUnit) : List OsUnit :=
  if path = [] then name else path ++ separator :: name

/-- The loop of `normalize_path`. -/
def pushComponents (normalized : List OsUnit) : List Component → Except String (List OsUnit)
  | [] => .ok normalized
  | .normal name :: rest =>
      if name = osText ".git" then .error "targets inside .git are not evidence files"
      else pushComponents (push normalized name) rest
  | .curDir :: rest => pushComponents normalized rest
  | .parentDir :: _ | .rootDir :: _ => .error "path must remain relative to the repository"

def pathString (path : List OsUnit) : Except String String :=
  match toStr path with
  | some text => .ok (String.ofList (text.map fun c => if c = '\\' then '/' else c))
  | none => .error "path is not valid UTF-8"

/-- The normalized path and its display. -/
def normalizePath (path : List OsUnit) : Except String (List OsUnit × String) := do
  let normalized ← pushComponents [] (components path)
  if normalized = [] then throw "path is empty after normalization"
  let display ← pathString normalized
  return (normalized, display)

/-! ### What is accepted -/

section Accepted

/-- The named components of a path. -/
def names (path : List OsUnit) : List (List OsUnit) :=
  (path.splitOn separator).filter fun part => part ≠ [] ∧ part ≠ osText "."

/-- A path with a name, that does not start at the root, go up or enter `.git`. -/
structure Accepted (path : List OsUnit) : Prop where
  relative : path.head? ≠ some separator
  named : names path ≠ []
  inside : ∀ name ∈ names path, name ≠ osText ".." ∧ name ≠ osText ".git"

variable {path normalized : List OsUnit} {parts : List (List OsUnit)} {display : String}

theorem pushComponents_eq_ok {start : List OsUnit} :
    pushComponents start (parts.filterMap component) = .ok normalized ↔
      (∀ part ∈ parts, part ≠ osText ".." ∧ part ≠ osText ".git") ∧
        normalized = (parts.filter fun part => part ≠ [] ∧ part ≠ osText ".").foldl push start := by
  induction parts generalizing start with
  | nil =>
    simp only [List.filterMap_nil, pushComponents, List.filter_nil, List.foldl_nil]
    constructor
    · intro h
      exact ⟨fun part hpart => absurd hpart List.not_mem_nil, (Except.ok.inj h).symm⟩
    · rintro ⟨-, rfl⟩
      rfl
  | cons part parts ih =>
    by_cases hskip : part = [] ∨ part = osText "."
    · have hnone : component part = none := if_pos hskip
      have hproper : part ≠ osText ".." ∧ part ≠ osText ".git" := by
        rcases hskip with rfl | rfl <;> decide
      rw [List.filterMap_cons_none hnone, ih, List.forall_mem_cons, and_iff_right hproper,
        List.filter_cons_of_neg]
      simpa [imp_iff_not_or] using hskip
    by_cases hup : part = osText ".."
    · have hparent : component part = some .parentDir := by
        rw [component, if_neg hskip, if_pos hup]
      rw [List.filterMap_cons_some hparent]
      refine ⟨fun h => (nomatch h), fun h => ?_⟩
      exact absurd hup (h.1 part List.mem_cons_self).1
    · have hnormal : component part = some (.normal part) := by
        rw [component, if_neg hskip, if_neg hup]
      rw [List.filterMap_cons_some hnormal, pushComponents, List.forall_mem_cons]
      by_cases hgit : part = osText ".git"
      · rw [if_pos hgit]
        exact ⟨fun h => (nomatch h), fun h => absurd hgit h.1.1.2⟩
      · rw [if_neg hgit, ih, List.filter_cons_of_pos (by simpa using hskip), List.foldl_cons]
        tauto

theorem foldl_push {start : List OsUnit} (h : start ≠ []) :
    parts.foldl push start = [separator].intercalate (start :: parts) := by
  induction parts generalizing start with
  | nil => simp
  | cons part parts ih =>
    have hpush : push start part = start ++ separator :: part := if_neg h
    rw [List.foldl_cons, hpush, ih (by simp), List.intercalate_cons_cons]
    cases parts with
    | nil => simp
    | cons part' parts => simp [List.intercalate_cons_cons]

theorem names_ne_nil {name : List OsUnit} (h : name ∈ names path) : name ≠ [] := by
  have hproper := (List.mem_filter.mp h).2
  simp only [decide_eq_true_eq] at hproper
  exact hproper.1

/-- No name has a separator in it. -/
theorem separator_notMem {name : List OsUnit} (h : name ∈ names path) : separator ∉ name :=
  notMem_of_mem_splitOn (List.mem_filter.mp h).1

theorem foldl_push_names : (names path).foldl push [] = [separator].intercalate (names path) := by
  cases hnames : names path with
  | nil => rfl
  | cons name rest =>
    have hname : name ≠ [] := by
      refine @names_ne_nil path name ?_
      rw [hnames]
      exact List.mem_cons_self
    exact foldl_push hname

theorem toStr_eq_some {text : List Char} : toStr path = some text ↔ path = text.map .char := by
  unfold toStr
  induction path generalizing text with
  | nil =>
    rw [List.mapM_nil]
    constructor
    · intro h
      rw [← Option.some.inj h]
      rfl
    · intro h
      rw [List.map_eq_nil_iff.mp h.symm]
      rfl
  | cons unit path ih =>
    rw [List.mapM_cons]
    cases unit with
    | stray byte =>
      refine ⟨fun h => (nomatch h), fun h => ?_⟩
      obtain ⟨c, rest, -, hc, -⟩ := List.map_eq_cons_iff.mp h.symm
      exact nomatch hc
    | char c =>
      simp only [Option.pure_def, Option.bind_eq_bind, Option.bind_some, Option.bind_eq_some_iff]
      constructor
      · rintro ⟨rest, hrest, h⟩
        rw [← Option.some.inj h, List.map_cons, ih.mp hrest]
      · intro h
        obtain ⟨c', rest, rfl, hc, hrest⟩ := List.map_eq_cons_iff.mp h.symm
        exact ⟨rest, ih.mpr hrest.symm, by rw [OsUnit.char.inj hc]⟩

/-- A backslash is shown as a slash. -/
def slash (unit : OsUnit) : OsUnit := if unit = .char '\\' then separator else unit

theorem osText_injective {text text' : String} (h : osText text = osText text') : text = text' := by
  refine String.toList_injective (List.map_injective_iff.mpr ?_ h)
  exact fun _ _ => OsUnit.char.inj

theorem pathString_eq_ok : pathString path = .ok display ↔
    (∃ text, toStr path = some text) ∧ osText display = path.map slash := by
  have hdisplay : ∀ text : List Char,
      osText (String.ofList (text.map fun c => if c = '\\' then '/' else c)) =
        (text.map OsUnit.char).map slash := by
    intro text
    unfold osText
    rw [String.toList_ofList, List.map_map, List.map_map]
    refine List.map_congr_left (fun c _ => ?_)
    show OsUnit.char (if c = '\\' then '/' else c) = slash (.char c)
    by_cases hc : c = '\\' <;> simp [slash, separator, hc]
  unfold pathString
  cases htext : toStr path with
  | none => simp
  | some text =>
    dsimp only
    rw [Except.ok.injEq]
    constructor
    · rintro rfl
      exact ⟨⟨text, rfl⟩, by rw [hdisplay, toStr_eq_some.mp htext]⟩
    · rintro ⟨-, h⟩
      refine osText_injective ?_
      rw [hdisplay, h, toStr_eq_some.mp htext]

theorem pushComponents_names_eq_ok :
    pushComponents [] ((path.splitOn separator).filterMap component) = .ok normalized ↔
      (∀ name ∈ names path, name ≠ osText ".." ∧ name ≠ osText ".git") ∧
        normalized = [separator].intercalate (names path) := by
  rw [pushComponents_eq_ok, ← foldl_push_names]
  refine and_congr_left (fun _ => ⟨fun h name hname => h name (List.mem_filter.mp hname).1, ?_⟩)
  intro h part hpart
  by_cases hskip : part = [] ∨ part = osText "."
  · rcases hskip with rfl | rfl <;> decide
  · exact h part (List.mem_filter.mpr ⟨hpart, by simpa using hskip⟩)

theorem intercalate_names_eq_nil :
    [separator].intercalate (names path) = [] ↔ names path = [] := by
  constructor
  · intro h
    by_contra hne
    -- a name would stand in the empty path
    obtain ⟨name, hname⟩ := List.exists_mem_of_ne_nil _ hne
    have hinfix := @infix_intercalate _ [separator] name _ hname
    rw [h, List.infix_nil] at hinfix
    exact names_ne_nil hname hinfix
  · intro h
    rw [h]
    rfl

/-- **The accepted paths**, with their results. -/
theorem normalizePath_eq_ok : normalizePath path = .ok (normalized, display) ↔
    Accepted path ∧ normalized = [separator].intercalate (names path) ∧
      (∃ text, toStr normalized = some text) ∧ osText display = normalized.map slash := by
  -- a root component is refused like a name that is not accepted
  have hpush : pushComponents [] (components path) = .ok normalized ↔
      path.head? ≠ some separator ∧
      (∀ name ∈ names path, name ≠ osText ".." ∧ name ≠ osText ".git") ∧
      normalized = [separator].intercalate (names path) := by
    unfold components
    dsimp only
    by_cases hroot : path.head? = some separator
    · rw [if_pos hroot]
      exact ⟨fun h => (nomatch h), fun h => absurd hroot h.1⟩
    rw [if_neg hroot, and_iff_right hroot, ← pushComponents_names_eq_ok]
    split
    · exact Iff.rfl
    · exact Iff.rfl
  rw [← pathString_eq_ok]
  unfold normalizePath
  constructor
  · intro h
    obtain ⟨pushed, hpushed, h⟩ := bind_eq_ok.mp h
    dsimp only at h
    split at h
    · exact nomatch h
    next hne =>
    obtain ⟨shown, hshown, h⟩ := bind_eq_ok.mp h
    obtain ⟨rfl, rfl⟩ := Prod.mk.inj (Except.ok.inj h)
    obtain ⟨hroot, hinside, heq⟩ := hpush.mp hpushed
    refine ⟨⟨hroot, fun hnone => hne ?_, hinside⟩, heq, hshown⟩
    rw [heq, intercalate_names_eq_nil]
    exact hnone
  · rintro ⟨haccepted, heq, hshown⟩
    have hne : normalized ≠ [] := by
      rw [heq, Ne, intercalate_names_eq_nil]
      exact haccepted.named
    refine bind_eq_ok.mpr ⟨_, hpush.mpr ⟨haccepted.relative, haccepted.inside, heq⟩, ?_⟩
    dsimp only
    rw [if_neg hne]
    exact bind_eq_ok.mpr ⟨_, hshown, rfl⟩

end Accepted

/-! ### What is shown -/

section Shown

def backslash : OsUnit := .char '\\'

/-- The parts of the named components between backslashes. -/
def shownParts (path : List OsUnit) : List (List OsUnit) := cut backslash (names path)

/-- A part that stays what it is when the path is read again. -/
def Proper (part : List OsUnit) : Prop :=
  part ≠ [] ∧ part ≠ osText "." ∧ part ≠ osText ".." ∧ part ≠ osText ".git"

instance (part : List OsUnit) : Decidable (Proper part) :=
  inferInstanceAs (Decidable (_ ∧ _ ∧ _ ∧ _))

/-- A relative path without `.`, `..` and `.git`. -/
structure Confined (display : String) : Prop where
  ne_empty : display ≠ ""
  relative : (osText display).head? ≠ some separator
  parts : ∀ part ∈ (osText display).splitOn separator,
    part ≠ osText "." ∧ part ≠ osText ".." ∧ part ≠ osText ".git"

variable {path path' normalized normalized' : List OsUnit} {display display' : String}

/-- The parts of the displayed path. -/
theorem splitOn_display (h : normalizePath path = .ok (normalized, display)) :
    (osText display).splitOn separator = shownParts path := by
  obtain ⟨haccepted, heq, -, hdisplay⟩ := normalizePath_eq_ok.mp h
  have hsplit : normalized.splitOn separator = names path := by
    rw [heq]
    exact List.splitOn_intercalate separator (fun _ => separator_notMem) haccepted.named
  rw [hdisplay, shownParts, ← hsplit]
  exact splitOn_map_replace normalized

/-- Displays are equal when they have the same parts. -/
theorem display_eq_iff (h : normalizePath path = .ok (normalized, display))
    (h' : normalizePath path' = .ok (normalized', display')) :
    display = display' ↔ shownParts path = shownParts path' := by
  constructor
  · rintro rfl
    rw [← splitOn_display h, splitOn_display h']
  · intro hparts
    rw [← splitOn_display h, ← splitOn_display h'] at hparts
    refine osText_injective ?_
    have hjoin := congrArg ([separator].intercalate ·) hparts
    simpa only [List.intercalate_splitOn] using hjoin

theorem normalized_eq_iff (h : normalizePath path = .ok (normalized, display))
    (h' : normalizePath path' = .ok (normalized', display')) :
    normalized = normalized' ↔ names path = names path' := by
  obtain ⟨haccepted, rfl, -⟩ := normalizePath_eq_ok.mp h
  obtain ⟨haccepted', rfl, -⟩ := normalizePath_eq_ok.mp h'
  constructor
  · intro heq
    have hsplit := congrArg (List.splitOn separator) heq
    rwa [List.splitOn_intercalate separator (fun _ => separator_notMem) haccepted.named,
      List.splitOn_intercalate separator (fun _ => separator_notMem) haccepted'.named] at hsplit
  · intro heq
    rw [heq]

theorem toStr_osText (text : String) : ∃ chars, toStr (osText text) = some chars :=
  ⟨text.toList, toStr_eq_some.mpr rfl⟩

/-- A display without backslashes is shown as it is. -/
theorem map_slash_eq_self {text : List OsUnit} (h : backslash ∉ text) : text.map slash = text := by
  refine (List.map_congr_left (fun unit hunit => ?_)).trans (List.map_id _)
  have hne : unit ≠ backslash := by
    rintro rfl
    exact h hunit
  exact if_neg hne

theorem backslash_notMem_display (h : normalizePath path = .ok (normalized, display)) :
    backslash ∉ osText display := by
  obtain ⟨-, -, -, hdisplay⟩ := normalizePath_eq_ok.mp h
  rw [hdisplay, List.mem_map]
  rintro ⟨unit, -, hunit⟩
  unfold slash at hunit
  split at hunit
  · exact absurd hunit (by decide)
  · next hne => exact hne hunit

theorem backslash_notMem_part {part : List OsUnit} (h : part ∈ shownParts path) :
    backslash ∉ part := by
  obtain ⟨name, -, hpart⟩ := List.mem_flatMap.mp h
  exact notMem_of_mem_splitOn hpart

/-- The named parts of the display. -/
theorem names_display (h : normalizePath path = .ok (normalized, display)) :
    names (osText display) =
      (shownParts path).filter fun part => part ≠ [] ∧ part ≠ osText "." := by
  rw [names, splitOn_display h]

/-- **The display** is confined and read back as itself exactly when its parts are proper. -/
theorem confined_and_stable_iff (h : normalizePath path = .ok (normalized, display)) :
    (Confined display ∧ ∃ again, normalizePath (osText display) = .ok (again, display)) ↔
      ∀ part ∈ shownParts path, Proper part := by
  have hparts := splitOn_display h
  constructor
  · rintro ⟨hconfined, again, hagain⟩ part hpart
    have hnone : ∀ name ∈ names (osText display), backslash ∉ name := by
      intro name hname
      rw [names_display h] at hname
      exact backslash_notMem_part (List.mem_filter.mp hname).1
    -- read again, the parts of the display are its names
    have hnames := splitOn_display hagain
    rw [shownParts, cut_eq_self hnone] at hnames
    have hname : part ∈ names (osText display) := by
      rw [← hnames, hparts]
      exact hpart
    refine ⟨names_ne_nil hname, hconfined.parts part ?_⟩
    rw [hparts]
    exact hpart
  · intro hproper
    have hnames : names (osText display) = shownParts path := by
      rw [names_display h, List.filter_eq_self]
      intro part hpart
      obtain ⟨hne, hdot, -⟩ := hproper part hpart
      simp [hne, hdot]
    have hrelative : (osText display).head? ≠ some separator := by
      intro hhead
      obtain ⟨rest, hrest⟩ := List.head?_eq_some_iff.mp hhead
      rw [hrest, List.splitOn_cons_eq_if_modifyHead, if_pos (beq_self_eq_true separator)] at hparts
      have hempty : [] ∈ shownParts path := by
        rw [← hparts]
        exact List.mem_cons_self
      exact (hproper [] hempty).1 rfl
    refine ⟨⟨?_, hrelative, fun part hpart => (hproper part (hparts ▸ hpart)).2⟩, osText display,
      normalizePath_eq_ok.mpr ⟨⟨hrelative, ?_, ?_⟩, ?_, toStr_osText display, ?_⟩⟩
    · rintro rfl
      have hempty : [] ∈ shownParts path := by
        rw [← hparts]
        decide
      exact (hproper [] hempty).1 rfl
    · rw [hnames, ← hparts]
      exact List.splitOn_ne_nil _ _
    · rw [hnames]
      exact fun part hpart => (hproper part hpart).2.2
    · rw [hnames, ← hparts, List.intercalate_splitOn]
    · rw [map_slash_eq_self (backslash_notMem_display h)]

/-- **Target paths.**  For two accepted paths: the display of the first is confined and read back as
    itself, and shared with the second for one file only, exactly when its parts between slashes and
    backslashes are proper, and the two do not have the same parts with different names. -/
theorem normalizePath_stable_iff (h : normalizePath path = .ok (normalized, display))
    (h' : normalizePath path' = .ok (normalized', display')) :
    ((Confined display ∧ ∃ again, normalizePath (osText display) = .ok (again, display)) ∧
        (display = display' → normalized = normalized')) ↔
      (∀ part ∈ shownParts path, Proper part) ∧
        (shownParts path = shownParts path' → names path = names path') := by
  rw [confined_and_stable_iff h, display_eq_iff h h', normalized_eq_iff h h']

/-- Empty parts and `.` are left out, so these two paths name one file. -/
theorem normalizePath_stable_sample :
    ((Confined "src/lib.rs" ∧
        ∃ again, normalizePath (osText "src/lib.rs") = .ok (again, "src/lib.rs")) ∧
      ("src/lib.rs" = "src/lib.rs" → osText "src/lib.rs" = osText "src/lib.rs")) :=
  (@normalizePath_stable_iff (osText "./src//lib.rs") (osText "src/lib.rs") (osText "src/lib.rs")
    (osText "src/lib.rs") "src/lib.rs" "src/lib.rs" (by decide) (by decide)).mpr
      ⟨by decide, by decide⟩

end Shown

/-- A name with backslashes is shown as a path that goes up. -/
theorem normalizePath_backslash :
    normalizePath (osText "a\\..\\b") = .ok (osText "a\\..\\b", "a/../b") ∧
      ¬ Confined "a/../b" := by
  refine ⟨by decide, fun h => ?_⟩
  exact (h.parts (osText "..") (by decide)).2.1 rfl

end Rationale.Git
