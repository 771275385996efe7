import Rationale.Library.Delimited
import Rationale.Splitting
import Rationale.GitHub.Normalize

namespace Rationale.GitHub

open Rationale.Library Rationale.Text

/-!
# The repository of a Git remote

`GitHubRepository::from_remote` of `crates/rationale-github/src/remote.rs`.

* `fromRemote` — the owner and the name that a remote states;
* `Spells` — the grammar of the remotes, with everything that does not matter;
* `fromRemote_eq_ok_iff` — the remotes that are accepted are those of the grammar, and the identity is
  that of their owner and name whatever the case of their letters;
* `fromRemote_canonical_iff` — an identity is read back from its own address, exactly when its name does
  not look like a name with the suffix `.git`.
-/

/-- `GitHubError::InvalidRemote`. -/
structure InvalidRemote where
  detail : String
  deriving DecidableEq, Repr

/-- The spellings of the host, in the order in which they are tried. -/
def remotePrefixes : List (List Char) :=
  ["git@github.com:".toList, "ssh://git@github.com/".toList, "https://github.com/".toList,
    "http://github.com/".toList, "git://github.com/".toList]

def isComponentChar (c : Char) : Bool := isAsciiAlphanumeric c || ['-', '_', '.'].contains c

def validComponent (value : List Char) : Bool :=
  value ≠ [] && value ≠ ['.'] && value ≠ ['.', '.'] && value.all isComponentChar

def gitSuffix : List Char := ".git".toList

/-- The owner and the name of a path. -/
def repositoryOf (path : List Char) : Except InvalidRemote GitHubRepository :=
  match path.splitOn '/' with
  | [owner, name] =>
    if validComponent owner && validComponent name then
      .ok ⟨String.ofList (toAsciiLowercase owner), String.ofList (toAsciiLowercase name)⟩
    else .error ⟨"remote must identify exactly one owner and repository"⟩
  | _ => .error ⟨"remote must identify exactly one owner and repository"⟩

/-- Normalize an HTTPS, SSH, or scp-style `github.com` Git remote. -/
def fromRemote (remote : String) : Except InvalidRemote GitHubRepository :=
  let remote := trimEndMatches (· = '/') (trim remote.toList)
  match remotePrefixes.findSome? (stripPrefix · remote) with
  | none => .error ⟨"only explicit github.com remotes are supported"⟩
  | some path =>
    if path.any (['?', '#', '@'].contains ·) then
      .error ⟨"remote contains unsupported URL components"⟩
    else repositoryOf ((stripSuffix gitSuffix path).getD path)

/-! ### The grammar -/

/-- The name of a path's end: a suffix `.git` is not part of it. -/
def NameEnd (name text : List Char) : Prop :=
  text = name ++ gitSuffix ∨ text = name ∧ ¬ gitSuffix <:+ name

/-- A remote that spells an owner and a name: a known host before them, and slashes and white space
    around. -/
structure Spells (remote owner name : List Char) : Prop where
  owner_valid : validComponent owner = true
  name_valid : validComponent name = true
  parts : ∃ pad host tail slashes pad', host ∈ remotePrefixes ∧ NameEnd name tail ∧
    (∀ c ∈ pad, isWhitespace c = true) ∧ (∀ c ∈ pad', isWhitespace c = true) ∧
    (∀ c ∈ slashes, c = '/') ∧
    remote = pad ++ (host ++ (owner ++ '/' :: tail) ++ slashes) ++ pad'

/-- The identity of an owner and a name. -/
def identity (owner name : List Char) : GitHubRepository :=
  ⟨String.ofList (toAsciiLowercase owner), String.ofList (toAsciiLowercase name)⟩

/-! ### Characters of a component -/

section Characters

variable {c : Char} {value text : List Char}

theorem isComponentChar_bounds (h : isComponentChar c = true) :
    33 ≤ c.toNat ∧ c.toNat ≤ 122 ∧ c ≠ '/' ∧ c ≠ '?' ∧ c ≠ '#' ∧ c ≠ '@' := by
  have hcases : (65 ≤ c.toNat ∧ c.toNat ≤ 90 ∨ 97 ≤ c.toNat ∧ c.toNat ≤ 122) ∨
      (48 ≤ c.toNat ∧ c.toNat ≤ 57) ∨ c = '-' ∨ c = '_' ∨ c = '.' := by
    unfold isComponentChar isAsciiAlphanumeric Char.isAlphanum Char.isAlpha Char.isUpper Char.isLower
      Char.isDigit at h
    simpa [UInt32.le_iff_toNat_le, or_assoc] using h
  have hne : ∀ d : Char, c.toNat ≠ d.toNat → c ≠ d := fun d hd heq => hd (congrArg Char.toNat heq)
  rcases hcases with hletter | hdigit | rfl | rfl | rfl
  · refine ⟨by omega, by omega, ?_, ?_, ?_, ?_⟩ <;> apply hne <;> simp <;> omega
  · refine ⟨by omega, by omega, ?_, ?_, ?_, ?_⟩ <;> apply hne <;> simp <;> omega
  all_goals decide

/-- The characters of a component are not white space. -/
theorem isWhitespace_of_component (h : isComponentChar c = true) : isWhitespace c = false := by
  obtain ⟨hlow, hhigh, _⟩ := isComponentChar_bounds h
  simp [isWhitespace]
  omega

theorem validComponent_iff : validComponent value = true ↔
    value ≠ [] ∧ value ≠ ['.'] ∧ value ≠ ['.', '.'] ∧ ∀ c ∈ value, isComponentChar c = true := by
  simp [validComponent, and_assoc]

theorem slash_notMem (h : validComponent value = true) : '/' ∉ value := by
  intro hmem
  exact (isComponentChar_bounds ((validComponent_iff.mp h).2.2.2 '/' hmem)).2.2.1 rfl

end Characters

/-! ### Owner and name of a path -/

section Path

variable {path owner name tail : List Char} {repository : GitHubRepository}

theorem repositoryOf_eq_ok_iff : repositoryOf path = .ok repository ↔
    ∃ owner name, validComponent owner = true ∧ validComponent name = true ∧
      path = owner ++ '/' :: name ∧ repository = identity owner name := by
  constructor
  · intro h
    unfold repositoryOf at h
    split at h
    · next owner name hsplit =>
      split at h
      · next hvalid =>
        rw [Bool.and_eq_true] at hvalid
        refine ⟨owner, name, hvalid.1, hvalid.2, ?_, (Except.ok.inj h).symm⟩
        rw [← @List.intercalate_splitOn _ path _ _ '/', hsplit]
        simp
      · exact absurd h (by simp)
    · exact absurd h (by simp)
  · rintro ⟨owner, name, howner, hname, rfl, rfl⟩
    have hsplit : (owner ++ '/' :: name).splitOn '/' = [owner, name] := by
      rw [List.splitOn_append_cons_self, List.splitOn_eq_singleton (slash_notMem howner),
        List.splitOn_eq_singleton (slash_notMem hname), List.singleton_append]
    unfold repositoryOf
    rw [hsplit]
    show (if validComponent owner && validComponent name then _ else _) = _
    rw [howner, hname]
    rfl

/-- A suffix `.git` of a path is one of its name. -/
theorem gitSuffix_suffix_iff : gitSuffix <:+ owner ++ '/' :: name ↔ gitSuffix <:+ name :=
  suffix_append_cons_iff (by decide)

/-- What is left of a path after the suffix `.git` is dropped. -/
theorem withoutSuffix_iff : (stripSuffix gitSuffix path).getD path = owner ++ '/' :: name ↔
    ∃ tail, path = owner ++ '/' :: tail ∧ NameEnd name tail := by
  cases hstrip : stripSuffix gitSuffix path with
  | none =>
    have hnot := stripSuffix_eq_none.mp hstrip
    constructor
    · intro h
      have hpath : path = owner ++ '/' :: name := h
      rw [hpath, gitSuffix_suffix_iff] at hnot
      exact ⟨name, hpath, Or.inr ⟨rfl, hnot⟩⟩
    · rintro ⟨tail, rfl, rfl | ⟨rfl, _⟩⟩
      · exact absurd (gitSuffix_suffix_iff.mpr (List.suffix_append name gitSuffix)) hnot
      · rfl
  | some rest =>
    have hpath := stripSuffix_eq_some.mp hstrip
    constructor
    · intro h
      have hrest : rest = owner ++ '/' :: name := h
      exact ⟨name ++ gitSuffix, by rw [hpath, hrest]; simp, Or.inl rfl⟩
    · rintro ⟨tail, htail, rfl | ⟨rfl, hnot⟩⟩
      · show rest = owner ++ '/' :: name
        apply @List.append_cancel_right _ _ gitSuffix
        rw [← hpath, htail]
        simp
      · rw [htail] at hpath
        exact absurd (gitSuffix_suffix_iff.mp ⟨rest, hpath.symm⟩) hnot

/-- The end of a name is written with the characters of a component. -/
theorem NameEnd.component (h : NameEnd name tail) (hname : validComponent name = true) :
    ∀ c ∈ tail, isComponentChar c = true := by
  obtain ⟨_, _, _, hall⟩ := validComponent_iff.mp hname
  rcases h with rfl | ⟨rfl, _⟩
  · intro c hc
    rcases List.mem_append.mp hc with hc | hc
    · exact hall c hc
    · have hletter : c = '.' ∨ c = 'g' ∨ c = 'i' ∨ c = 't' := by simpa [gitSuffix] using hc
      rcases hletter with rfl | rfl | rfl | rfl <;> decide
  · exact hall

theorem NameEnd.ne_nil (h : NameEnd name tail) (hname : validComponent name = true) : tail ≠ [] := by
  obtain ⟨hne, _⟩ := validComponent_iff.mp hname
  rcases h with rfl | ⟨rfl, _⟩
  · exact fun hnil => hne (List.append_eq_nil_iff.mp hnil).1
  · exact hne

/-- A path of components has no other part of an address in it. -/
theorem unsupported_eq_false (howner : validComponent owner = true)
    (htail : ∀ c ∈ tail, isComponentChar c = true) :
    (owner ++ '/' :: tail).any (['?', '#', '@'].contains ·) = false := by
  rw [List.any_eq_false]
  intro c hc
  have hne : c ≠ '?' ∧ c ≠ '#' ∧ c ≠ '@' := by
    rcases List.mem_append.mp hc with hc | hc
    · exact (isComponentChar_bounds ((validComponent_iff.mp howner).2.2.2 c hc)).2.2.2
    rcases List.mem_cons.mp hc with rfl | hc
    · decide
    · exact (isComponentChar_bounds (htail c hc)).2.2.2
  simp [hne]

end Path

/-! ### The host of a remote -/

section Host

variable {host path remote : List Char}

/-- No spelling of the host starts with another one. -/
theorem findHost_append (h : host ∈ remotePrefixes) :
    remotePrefixes.findSome? (stripPrefix · (host ++ path)) = some path := by
  simp only [remotePrefixes, List.mem_cons, List.not_mem_nil, or_false] at h
  rcases h with rfl | rfl | rfl | rfl | rfl <;> rfl

theorem findHost_eq_some (h : remotePrefixes.findSome? (stripPrefix · remote) = some path) :
    ∃ host ∈ remotePrefixes, remote = host ++ path := by
  obtain ⟨host, hhost, hstrip⟩ := List.exists_of_findSome?_eq_some h
  exact ⟨host, hhost, stripPrefix_eq_some.mp hstrip⟩

theorem host_ne_nil (h : host ∈ remotePrefixes) : host ≠ [] := by
  revert host
  decide

theorem host_head (h : host ∈ remotePrefixes) : ∀ c ∈ host.head?, isWhitespace c = false := by
  simp only [remotePrefixes, List.mem_cons, List.not_mem_nil, or_false] at h
  intro c hc
  have hletter : c = 'g' ∨ c = 's' ∨ c = 'h' := by
    rcases h with rfl | rfl | rfl | rfl | rfl <;> simp [Option.mem_def, eq_comm] at hc <;> simp [hc]
  rcases hletter with rfl | rfl | rfl <;> decide

end Host

/-! ### Accepted remotes -/

section Remote

variable {remote : String} {repository : GitHubRepository} {body slashes owner name tail : List Char}

/-- The remote without the white space and the slashes around it. -/
def remoteBody (remote : String) : List Char := trimEndMatches (· = '/') (trim remote.toList)

theorem fromRemote_eq_ok_iff_body : fromRemote remote = .ok repository ↔
    ∃ host ∈ remotePrefixes, ∃ owner name tail, validComponent owner = true ∧
      validComponent name = true ∧ NameEnd name tail ∧
      remoteBody remote = host ++ (owner ++ '/' :: tail) ∧ repository = identity owner name := by
  show (match remotePrefixes.findSome? (stripPrefix · (remoteBody remote)) with
    | none => _
    | some path => _) = _ ↔ _
  constructor
  · intro h
    split at h
    · exact absurd h (by simp)
    · next path hfind =>
      obtain ⟨host, hhost, hbody⟩ := findHost_eq_some hfind
      split at h
      · exact absurd h (by simp)
      obtain ⟨owner, name, howner, hname, hpath, hrepository⟩ := repositoryOf_eq_ok_iff.mp h
      obtain ⟨tail, rfl, htail⟩ := withoutSuffix_iff.mp hpath
      exact ⟨host, hhost, owner, name, tail, howner, hname, htail, hbody, hrepository⟩
  · rintro ⟨host, hhost, owner, name, tail, howner, hname, htail, hbody, rfl⟩
    rw [hbody, findHost_append hhost]
    show (if (owner ++ '/' :: tail).any (['?', '#', '@'].contains ·) then _ else _) = _
    rw [unsupported_eq_false howner (htail.component hname)]
    exact repositoryOf_eq_ok_iff.mpr
      ⟨owner, name, howner, hname, withoutSuffix_iff.mpr ⟨tail, rfl, htail⟩, rfl⟩

/-- The last character of a path is one of its name. -/
theorem getLast_path {before : List Char} {c : Char} (hne : tail ≠ [])
    (h : c ∈ (before ++ '/' :: tail).getLast?) : c ∈ tail := by
  rw [List.getLast?_append, List.getLast?_cons_of_ne_nil hne] at h
  obtain ⟨last, hlast⟩ := Option.ne_none_iff_exists'.mp (mt List.getLast?_eq_none_iff.mp hne)
  rw [hlast] at h
  have hc : last = c := by simpa using h
  exact hc ▸ List.mem_of_getLast? hlast

/-- Slashes and white space around an address do not matter. -/
theorem trimmed_eq {pad pad' before : List Char} (hpad : ∀ c ∈ pad, isWhitespace c = true)
    (hpad' : ∀ c ∈ pad', isWhitespace c = true) (hslashes : ∀ c ∈ slashes, c = '/')
    (hhead : ∀ c ∈ before.head?, isWhitespace c = false) (hne : before ≠ []) (htail : tail ≠ [])
    (hall : ∀ c ∈ tail, isComponentChar c = true) :
    trimEndMatches (· = '/') (trim (pad ++ (before ++ '/' :: tail ++ slashes) ++ pad')) =
      before ++ '/' :: tail := by
  have htrim : trim (pad ++ (before ++ '/' :: tail ++ slashes) ++ pad') =
      before ++ '/' :: tail ++ slashes := by
    apply trim_append hpad hpad'
    · simp
    · intro c hc
      obtain ⟨d, before, rfl⟩ := List.exists_cons_of_ne_nil hne
      exact hhead c (by simpa using hc)
    · intro c hc
      rw [List.getLast?_append] at hc
      cases hlast : slashes.getLast? with
      | none =>
        rw [hlast, Option.none_or] at hc
        exact isWhitespace_of_component (hall c (getLast_path htail hc))
      | some d =>
        rw [hlast, Option.some_or] at hc
        have hslash : c = '/' := hslashes c (List.mem_of_getLast? (hlast.trans hc))
        rw [hslash]
        decide
  rw [htrim]
  apply trimEndMatches_append (by simpa using hslashes)
  intro c hc
  have hchar := hall c (getLast_path htail hc)
  exact decide_eq_false (isComponentChar_bounds hchar).2.2.1

/-- A remote with the body of an address spells it. -/
theorem spells_iff : Spells remote.toList owner name ↔
    validComponent owner = true ∧ validComponent name = true ∧
      ∃ host ∈ remotePrefixes, ∃ tail, NameEnd name tail ∧
        remoteBody remote = host ++ (owner ++ '/' :: tail) := by
  constructor
  · rintro ⟨howner, hname, pad, host, tail, slashes, pad', hhost, htail, hpad, hpad', hslashes, hremote⟩
    refine ⟨howner, hname, host, hhost, tail, htail, ?_⟩
    unfold remoteBody
    have hbefore : host ++ (owner ++ '/' :: tail) = (host ++ owner) ++ '/' :: tail :=
      (List.append_assoc _ _ _).symm
    rw [hremote, hbefore]
    refine trimmed_eq hpad hpad' hslashes ?_ ?_ (htail.ne_nil hname) (htail.component hname)
    · intro c hc
      obtain ⟨d, host', rfl⟩ := List.exists_cons_of_ne_nil (host_ne_nil hhost)
      exact host_head hhost c hc
    · exact fun hnil => host_ne_nil hhost (List.append_eq_nil_iff.mp hnil).1
  · rintro ⟨howner, hname, host, hhost, tail, htail, hbody⟩
    refine ⟨howner, hname, ?_⟩
    obtain ⟨pad, pad', hpads, hpad, hpad'⟩ := exists_trim remote.toList
    obtain ⟨slashes, hslash, hslashes⟩ := exists_trimEndMatches (· = '/') (trim remote.toList)
    refine ⟨pad, host, tail, slashes, pad', hhost, htail, hpad, hpad', by simpa using hslashes, ?_⟩
    rw [← hbody]
    exact hpads.trans (congrArg (pad ++ · ++ pad') hslash)

/-- **Accepted remotes.** A remote has a repository exactly when it spells an owner and a name, and
    the repository is theirs. -/
theorem fromRemote_eq_ok_iff : fromRemote remote = .ok repository ↔
    ∃ owner name, Spells remote.toList owner name ∧ repository = identity owner name := by
  rw [fromRemote_eq_ok_iff_body]
  constructor
  · rintro ⟨host, hhost, owner, name, tail, howner, hname, htail, hbody, hrepository⟩
    exact ⟨owner, name, spells_iff.mpr ⟨howner, hname, host, hhost, tail, htail, hbody⟩, hrepository⟩
  · rintro ⟨owner, name, hspells, hrepository⟩
    obtain ⟨howner, hname, host, hhost, tail, htail, hbody⟩ := spells_iff.mp hspells
    exact ⟨host, hhost, owner, name, tail, howner, hname, htail, hbody, hrepository⟩

end Remote

/-! ### Canonical addresses -/

section Canonical

variable {remote : String} {repository : GitHubRepository} {owner name value : List Char} {c : Char}

theorem isComponentChar_toLower (h : isComponentChar c = true) :
    isComponentChar c.toLower = true := by
  rcases toLower_cases c with ⟨heq, _⟩ | ⟨hupper, heq⟩
  · rw [heq]
    exact h
  · have hlower : 97 ≤ c.toLower.toNat ∧ c.toLower.toNat ≤ 122 := by omega
    unfold isComponentChar isAsciiAlphanumeric Char.isAlphanum Char.isAlpha Char.isLower
    simp [UInt32.le_iff_toNat_le, hlower]

theorem validComponent_lowercase (h : validComponent value = true) :
    validComponent (toAsciiLowercase value) = true := by
  obtain ⟨hne, hdot, hdots, hall⟩ := validComponent_iff.mp h
  refine validComponent_iff.mpr ⟨?_, ?_, ?_, ?_⟩
  · exact mt List.map_eq_nil_iff.mp hne
  · intro heq
    obtain ⟨c, rest, rfl, hc, hrest⟩ := List.map_eq_cons_iff.mp heq
    rw [eq_dot_of_toLower hc, List.map_eq_nil_iff.mp hrest] at hdot
    exact hdot rfl
  · intro heq
    obtain ⟨c, rest, rfl, hc, hrest⟩ := List.map_eq_cons_iff.mp heq
    obtain ⟨c', rest, rfl, hc', hrest⟩ := List.map_eq_cons_iff.mp hrest
    rw [eq_dot_of_toLower hc, eq_dot_of_toLower hc', List.map_eq_nil_iff.mp hrest] at hdots
    exact hdots rfl
  · intro c hc
    obtain ⟨d, hd, rfl⟩ := List.mem_map.mp hc
    exact isComponentChar_toLower (hall d hd)

/-- The address of a repository has nothing to trim. -/
theorem remoteBody_canonical (hname : validComponent name = true) :
    remoteBody ("https://github.com/" ++ (identity owner name).slug) =
      "https://github.com/".toList ++ (toAsciiLowercase owner ++ '/' :: toAsciiLowercase name) := by
  have hvalid := validComponent_lowercase hname
  obtain ⟨hne, _, _, hall⟩ := validComponent_iff.mp hvalid
  have hhead : ∀ c ∈ ("https://github.com/".toList ++ toAsciiLowercase owner).head?,
      isWhitespace c = false := by
    intro c hc
    have hfirst : c = 'h' := (Option.some.inj hc).symm
    rw [hfirst]
    decide
  have htrim := @trimmed_eq [] (toAsciiLowercase name) [] []
    ("https://github.com/".toList ++ toAsciiLowercase owner) (by simp) (by simp) (by simp)
    hhead (by simp) hne hall
  unfold remoteBody
  simpa [GitHubRepository.slug, identity] using htrim

/-- **Canonical addresses.** The address of an accepted remote's repository is read as that
    repository, exactly when its name does not end in `.git`. -/
theorem fromRemote_canonical_iff (h : fromRemote remote = .ok repository) :
    fromRemote ("https://github.com/" ++ repository.slug) = .ok repository ↔
      ¬ ".git".toList <:+ repository.name.toList := by
  obtain ⟨_, _, owner, name, _, howner, hname, _, _, rfl⟩ := fromRemote_eq_ok_iff_body.mp h
  have hlower : (identity owner name).name.toList = toAsciiLowercase name := String.toList_ofList
  have hbody := @remoteBody_canonical owner name hname
  have hhttps : "https://github.com/".toList ∈ remotePrefixes := by decide
  rw [fromRemote_eq_ok_iff_body, hlower]
  constructor
  · rintro ⟨host, hhost, owner', name', tail, howner', hname', htail, hbody', hidentity⟩ hsuffix
    -- the host is the one of the address, and so are the two components
    have hpath : owner' ++ '/' :: tail = toAsciiLowercase owner ++ '/' :: toAsciiLowercase name := by
      have hfind := @findHost_append _ (owner' ++ '/' :: tail) hhost
      rw [← hbody', hbody, findHost_append hhttps] at hfind
      exact (Option.some.inj hfind).symm
    obtain ⟨_, rfl⟩ := (append_delimiter_inj (slash_notMem howner')
      (slash_notMem (validComponent_lowercase howner))).mp hpath
    have hlength : name'.length = name.length := by
      have heq := congrArg String.toList (congrArg GitHubRepository.name hidentity)
      rw [hlower] at heq
      have hlengths := congrArg List.length heq
      simpa [identity, toAsciiLowercase] using hlengths.symm
    rcases htail with htail | ⟨rfl, hnot⟩
    · have hlengths := congrArg List.length htail
      simp [toAsciiLowercase, hlength, gitSuffix] at hlengths
    · exact hnot hsuffix
  · intro hnot
    refine ⟨_, hhttps, _, _, _, validComponent_lowercase howner, validComponent_lowercase hname,
      Or.inr ⟨rfl, hnot⟩, hbody, ?_⟩
    unfold identity
    rw [lowercase_lowercase, lowercase_lowercase]

theorem fromRemote_canonical_suffix :
    fromRemote "git@github.com:Octo/Widget.git.git" = .ok ⟨"octo", "widget.git"⟩ ∧
      fromRemote ("https://github.com/" ++ (GitHubRepository.mk "octo" "widget.git").slug) ≠
        .ok ⟨"octo", "widget.git"⟩ := by
  have h : fromRemote "git@github.com:Octo/Widget.git.git" = .ok ⟨"octo", "widget.git"⟩ := by rfl
  exact ⟨h, mt (fromRemote_canonical_iff h).mp (by decide)⟩

end Canonical

end Rationale.GitHub
