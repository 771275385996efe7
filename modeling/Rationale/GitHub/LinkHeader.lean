import Rationale.Library.Delimited
import Rationale.Splitting
import Rationale.GitHub.Client

namespace Rationale.GitHub

open Rationale.Library Rationale.Text

/-!
# Link headers

The grammar of `Link` headers, and what `next_link` reads of them.

* `LinkValue`, `Renders` — link-values `<uri>; rel="name"` with commas between them;
* `partLink_eq_some` — what the scanner found in a part stands in the part;
* `Renders.nextLink_eq_iff` — the scanner finds the stated next link of a header exactly when the URI
  has no comma and no semicolon;
* `nextLink_response_iff` — the same of a response, of which only the first header is read.
-/

/-- `<uri>; rel="name"`. -/
structure LinkValue where
  uri : List Char
  rel : List Char
  uri_closed : '>' ∉ uri
  rel_closed : '"' ∉ rel

def LinkValue.text (link : LinkValue) : List Char :=
  '<' :: link.uri ++ '>' :: ("; rel=\"".toList ++ link.rel ++ ['"'])

/-- The next link that link-values state. -/
def statedNext (links : List LinkValue) : Option (List Char) :=
  (links.find? (·.rel = "next".toList)).map (·.uri)

/-- Optional white space of a header. -/
def Blank (text : List Char) : Prop := ∀ c ∈ text, c = ' ' ∨ c = '\t'

/-- A header value that consists of link-values with commas between them. -/
inductive Renders : List Char → List LinkValue → Prop where
  | single {pad pad'} (link : LinkValue) (hpad : Blank pad) (hpad' : Blank pad') :
      Renders (pad ++ link.text ++ pad') [link]
  | cons {pad pad' rest links} (link : LinkValue) (hpad : Blank pad) (hpad' : Blank pad')
      (hrest : Renders rest links) :
      Renders (pad ++ link.text ++ pad' ++ ',' :: rest) (link :: links)

theorem Blank.isWhitespace {text : List Char} (h : Blank text) : ∀ c ∈ text, isWhitespace c = true := by
  intro c hc
  rcases h c hc with rfl | rfl <;> decide

theorem Blank.notMem {text : List Char} (h : Blank text) {c : Char} (hspace : c ≠ ' ') (htab : c ≠ '\t') :
    c ∉ text := by
  intro hc
  rcases h c hc with rfl | rfl
  · exact hspace rfl
  · exact htab rfl

/-! ### One part -/

section Part

variable {part uri pad pad' : List Char} {link : LinkValue}

/-- What is found in a part: in angle brackets before the first semicolon, with `rel="next"` after
    it. -/
theorem partLink_eq_some (h : partLink part = some uri) :
    (',' ∉ part → ',' ∉ uri) ∧ ';' ∉ uri ∧
      ∃ before after, part = before ++ "rel=\"next\"".toList ++ after ∧ '>' ∈ before := by
  unfold partLink at h
  cases hsplit : part.splitOn ';' with
  | nil => exact absurd hsplit (List.splitOn_ne_nil _ _)
  | cons url pieces =>
    rw [hsplit] at h
    obtain ⟨hnext, hstrip⟩ := Option.ite_none_right_eq_some.mp h
    -- the URL stands in the first piece, and the first piece in the part
    obtain ⟨inner, hprefix, hsuffix⟩ := Option.bind_eq_some_iff.mp hstrip
    have htrim : trim url = '<' :: uri ++ ['>'] := by
      rw [stripPrefix_eq_some.mp hprefix, stripSuffix_eq_some.mp hsuffix]
      rfl
    have hurl : '<' :: uri ++ ['>'] <:+: url := htrim ▸ infix_trim
    have hin : ∀ c ∈ uri, c ∈ url := fun c hc => hurl.subset (by simp [hc])
    have hfirst : url ∈ part.splitOn ';' := by
      rw [hsplit]
      exact List.mem_cons_self
    refine ⟨fun hcomma hmem => ?_, fun hmem => ?_, ?_⟩
    · exact hcomma ((infix_of_mem_splitOn hfirst).subset (hin _ hmem))
    · exact notMem_of_mem_splitOn hfirst (hin _ hmem)
    · obtain ⟨piece, hpiece, htext⟩ := List.any_eq_true.mp hnext
      obtain ⟨before, after, hpart⟩ := eq_append_of_splitOn_eq_cons hsplit hpiece
      obtain ⟨before', after', hrel⟩ := @infix_trim piece
      rw [of_decide_eq_true htext] at hrel
      refine ⟨url ++ ';' :: (before ++ before'), after' ++ after, ?_, ?_⟩
      · rw [hpart, ← hrel]
        simp
      · exact List.mem_append.mpr (.inl (hurl.subset (by simp)))

/-- A link-value around its closing angle bracket. -/
theorem text_eq_around (link : LinkValue) (pad pad' : List Char) :
    pad ++ link.text ++ pad' =
      (pad ++ '<' :: link.uri) ++ '>' :: ("; rel=".toList ++ '"' :: (link.rel ++ '"' :: pad')) := by
  have htoList : "; rel=\"".toList = "; rel=".toList ++ ['"'] := rfl
  simp [LinkValue.text, htoList]

/-- Behind the angle brackets there is room for one name in quotes. -/
theorem rel_eq_of_text {before after name : List Char} (hpad : Blank pad) (hpad' : Blank pad')
    (hbefore : '>' ∈ before) (hname : '"' ∉ name)
    (h : pad ++ link.text ++ pad' = before ++ '"' :: (name ++ '"' :: after)) : link.rel = name := by
  obtain ⟨start, rest, rfl, hstart⟩ := exists_first hbefore
  have huri : '>' ∉ pad ++ '<' :: link.uri := by
    have hblank := hpad.notMem (c := '>') (by decide) (by decide)
    simp [hblank, link.uri_closed]
  rw [text_eq_around, List.append_assoc start, List.cons_append, append_delimiter_inj huri hstart] at h
  have htail := h.2
  -- the two quotes of the name are all there are
  have hcount := congrArg (List.count '"') htail
  have hblank := hpad'.notMem (c := '"') (by decide) (by decide)
  simp only [List.count_append, List.count_cons_self, List.count_eq_zero.mpr hname,
    List.count_eq_zero.mpr link.rel_closed, List.count_eq_zero.mpr hblank] at hcount
  have hrest : '"' ∉ rest := by
    rw [← List.count_eq_zero]
    have hconstant : ("; rel=".toList).count '"' = 0 := by decide
    omega
  rw [append_delimiter_inj (by decide) hrest] at htail
  exact ((append_delimiter_inj link.rel_closed hname).mp htail.2).1

/-- No part of another link-value is a next link. -/
theorem findSome?_other (hpad : Blank pad) (hpad' : Blank pad') (hrel : link.rel ≠ "next".toList) :
    ((pad ++ link.text ++ pad').splitOn ',').findSome? partLink = none := by
  rw [List.findSome?_eq_none_iff]
  intro part hpart
  rw [Option.eq_none_iff_forall_ne_some]
  intro uri hfound
  obtain ⟨-, -, before, after, rfl, hbefore⟩ := partLink_eq_some hfound
  obtain ⟨start, rest, htext⟩ := infix_of_mem_splitOn hpart
  refine hrel (@rel_eq_of_text pad pad' link (start ++ before ++ "rel=".toList) (after ++ rest) _
    hpad hpad' (by simp [hbefore]) (by decide) ?_)
  have htoList : "rel=\"next\"".toList = "rel=".toList ++ '"' :: ("next".toList ++ ['"']) := rfl
  rw [← htext, htoList]
  simp

/-- A next link without commas and semicolons is found. -/
theorem findSome?_next (hpad : Blank pad) (hpad' : Blank pad') (hrel : link.rel = "next".toList)
    (hcomma : ',' ∉ link.uri) (hsemicolon : ';' ∉ link.uri) :
    ((pad ++ link.text ++ pad').splitOn ',').findSome? partLink = some link.uri := by
  have htoList : "; rel=\"".toList ++ "next".toList ++ ['"'] = ';' :: ' ' :: "rel=\"next\"".toList := rfl
  have htext : pad ++ link.text ++ pad' =
      (pad ++ ('<' :: link.uri ++ ['>'])) ++ ';' :: ([' '] ++ "rel=\"next\"".toList ++ pad') := by
    unfold LinkValue.text
    rw [hrel, htoList]
    simp
  have hblank {c : Char} (hspace : c ≠ ' ') (htab : c ≠ '\t') : c ∉ pad ∧ c ∉ pad' :=
    ⟨hpad.notMem hspace htab, hpad'.notMem hspace htab⟩
  -- there is one part, of two pieces
  have hparts : (pad ++ link.text ++ pad').splitOn ',' = [pad ++ link.text ++ pad'] := by
    refine List.splitOn_eq_singleton ?_
    have h := @hblank ',' (by decide) (by decide)
    rw [htext]
    simp [h, hcomma]
  have hpieces : (pad ++ link.text ++ pad').splitOn ';' =
      [pad ++ ('<' :: link.uri ++ ['>']), [' '] ++ "rel=\"next\"".toList ++ pad'] := by
    have h := @hblank ';' (by decide) (by decide)
    rw [htext, List.splitOn_append_cons_self, List.splitOn_eq_singleton, List.splitOn_eq_singleton,
      List.singleton_append]
    · simp [h]
    · simp [h, hsemicolon]
  have hurl : trim (pad ++ ('<' :: link.uri ++ ['>'])) = '<' :: link.uri ++ ['>'] := by
    have hfirst : ∀ c ∈ ('<' :: link.uri ++ ['>']).head?, isWhitespace c = false := by
      rintro c ⟨⟩
      rfl
    have hlast : ∀ c ∈ ('<' :: link.uri ++ ['>']).getLast?, isWhitespace c = false := by
      rw [List.getLast?_concat]
      rintro c ⟨⟩
      rfl
    have h := @trim_append _ pad [] hpad.isWhitespace (by simp) (by simp) hfirst hlast
    rwa [List.append_nil] at h
  have hname : trim ([' '] ++ "rel=\"next\"".toList ++ pad') = "rel=\"next\"".toList :=
    trim_append (List.forall_mem_singleton.mpr rfl) hpad'.isWhitespace (by decide)
      (by rintro c ⟨⟩; rfl) (by rintro c ⟨⟩; rfl)
  have hany : [[' '] ++ "rel=\"next\"".toList ++ pad'].any
      (fun piece => trim piece = "rel=\"next\"".toList) = true :=
    List.any_eq_true.mpr ⟨_, List.mem_singleton_self _, decide_eq_true hname⟩
  rw [hparts, List.findSome?_singleton, partLink, hpieces]
  dsimp only
  rw [if_pos hany, hurl, Option.bind_eq_some_iff]
  exact ⟨link.uri ++ ['>'], stripPrefix_eq_some.mpr rfl, stripSuffix_eq_some.mpr rfl⟩

end Part

/-! ### One header -/

section Header

variable {value uri : List Char} {link : LinkValue} {links : List LinkValue}

theorem statedNext_cons_of_eq (h : link.rel = "next".toList) :
    statedNext (link :: links) = some link.uri := by
  rw [statedNext, List.find?_cons_of_pos (by simp [h]), Option.map_some]

theorem statedNext_cons_of_ne (h : link.rel ≠ "next".toList) :
    statedNext (link :: links) = statedNext links := by
  rw [statedNext, List.find?_cons_of_neg (by simpa using h), statedNext]

theorem statedNext_append (links links' : List LinkValue) :
    statedNext (links ++ links') = (statedNext links).or (statedNext links') := by
  rw [statedNext, List.find?_append, Option.map_or, ← statedNext, ← statedNext]

/-- What the scanner finds has no comma and no semicolon. -/
theorem notMem_of_nextLink (h : nextLink value = some uri) : ',' ∉ uri ∧ ';' ∉ uri := by
  obtain ⟨part, hpart, hfound⟩ := List.exists_of_findSome?_eq_some h
  obtain ⟨hcomma, hsemicolon, -⟩ := partLink_eq_some hfound
  exact ⟨hcomma (notMem_of_mem_splitOn hpart), hsemicolon⟩

/-- A stated next link without commas and semicolons is found, and no other one. -/
theorem Renders.nextLink_eq (h : Renders value links)
    (hsafe : ∀ uri, statedNext links = some uri → ',' ∉ uri ∧ ';' ∉ uri) :
    nextLink value = statedNext links := by
  induction h with
  | single link hpad hpad' =>
    by_cases hrel : link.rel = "next".toList
    · rw [statedNext_cons_of_eq hrel] at hsafe ⊢
      obtain ⟨hcomma, hsemicolon⟩ := hsafe _ rfl
      exact findSome?_next hpad hpad' hrel hcomma hsemicolon
    · rw [statedNext_cons_of_ne hrel]
      exact findSome?_other hpad hpad' hrel
  | cons link hpad hpad' hrest ih =>
    rw [nextLink, List.splitOn_append_cons_self, List.findSome?_append]
    by_cases hrel : link.rel = "next".toList
    · rw [statedNext_cons_of_eq hrel] at hsafe ⊢
      obtain ⟨hcomma, hsemicolon⟩ := hsafe _ rfl
      rw [findSome?_next hpad hpad' hrel hcomma hsemicolon, Option.some_or]
    · rw [statedNext_cons_of_ne hrel] at hsafe ⊢
      rw [findSome?_other hpad hpad' hrel, Option.none_or]
      exact ih hsafe

/-- **The scanner** agrees with the grammar exactly on next links without commas and semicolons. -/
theorem Renders.nextLink_eq_iff (h : Renders value links) :
    nextLink value = statedNext links ↔
      ∀ uri, statedNext links = some uri → ',' ∉ uri ∧ ';' ∉ uri :=
  ⟨fun heq _ huri => notMem_of_nextLink (heq.trans huri), h.nextLink_eq⟩

end Header

/-! ### One response -/

/-- The values of the `Link` headers in their order. -/
def linkLines (response : Response) : List (List Char) :=
  (response.headers.filter (·.1 = "link")).map (·.2)

/-- The next link, if any, is in the first `Link` header, which is a text, and its URI has no comma
    and no semicolon. -/
def ReadableNext (response : Response) (lines : List (List LinkValue)) : Prop :=
  ∀ uri, statedNext lines.flatten = some uri →
    (∃ value, (linkLines response).head? = some value ∧ value.all isVisibleAscii = true) ∧
      (lines.head?.bind statedNext) = some uri ∧ ',' ∉ uri ∧ ';' ∉ uri

theorem headerString_link (response : Response) :
    headerString response "link" = (linkLines response).head?.filter (·.all isVisibleAscii) := by
  unfold headerString linkLines
  rw [List.head?_map, List.head?_filter]
  cases response.headers.find? (·.1 = "link") with
  | none => rfl
  | some header => simp [Option.filter]

/-- **The next link of a response** is what its `Link` headers state, exactly when it is readable. -/
theorem nextLink_response_iff {response : Response} {lines : List (List LinkValue)}
    (h : List.Forall₂ Renders (linkLines response) lines) :
    (headerString response "link").bind nextLink = statedNext lines.flatten ↔
      ReadableNext response lines := by
  unfold ReadableNext
  rw [headerString_link]
  generalize linkLines response = values at h
  cases h with
  | nil => simp [statedNext]
  | @cons value first values rest hfirst hrest =>
    rw [List.flatten_cons, statedNext_append, List.head?_cons, List.head?_cons, Option.bind_some]
    by_cases hvisible : value.all isVisibleAscii = true
    · rw [show (some value).filter (·.all isVisibleAscii) = some value by simp [hvisible],
        Option.bind_some]
      have hiff := hfirst.nextLink_eq_iff
      cases hstated : statedNext first with
      | none =>
        -- nothing in the first header, as the scanner finds
        rw [hstated] at hiff
        rw [hiff.mpr (fun uri heq => nomatch heq), Option.none_or]
        cases statedNext rest.flatten <;> simp
      | some uri =>
        rw [hstated] at hiff
        have hread : ∃ text, some value = some text ∧ text.all isVisibleAscii = true :=
          ⟨value, rfl, hvisible⟩
        simp only [Option.some_or, hiff, hread, true_and]
        exact forall₂_congr fun uri heq => (and_iff_right heq).symm
    · -- a header that is no text is not read
      rw [show (some value).filter (·.all isVisibleAscii) = none by simpa using hvisible,
        Option.bind_none]
      have hunread : ¬ ∃ text, some value = some text ∧ text.all isVisibleAscii = true := by
        rintro ⟨text, ⟨⟩, htext⟩
        exact hvisible htext
      simp only [hunread, false_and, imp_false]
      rw [← Option.eq_none_iff_forall_ne_some]
      exact eq_comm

end Rationale.GitHub
