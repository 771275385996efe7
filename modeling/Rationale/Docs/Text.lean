import Rationale.Protocol
import Rationale.Text
import Rationale.Library.SortUniq

namespace Rationale.Docs

open Std Rationale.Library Rationale.Text

/-!
# Scanning document text

The text functions of `crates/rationale-docs/src/lib.rs`, over character lists.

* `frontMatter` — the delimited metadata block at the top of a document;
* `validateStructuralNesting` — the bound on indentation and bracket depth;
* `findIdentifiers` — explicit identifiers with a configured prefix;
* `validateId`, `parseStatus`, `normalizePath` — field checks.
-/

/-- A diagnostic code with its message. -/
abbrev ParseFailure := String × String

inductive FrontMatterKind where
  | yaml
  | toml
  deriving DecidableEq, Repr

/-- The lines before the first one that equals the delimiter, and the lines after it. -/
def splitAtDelimiter (delimiter : List Char) :
    List (List Char) → Option (List Char × List Char)
  | [] => none
  | line :: lines =>
      if trimEndMatches (['\r', '\n'].contains ·) line = delimiter then some ([], lines.flatten)
      else (splitAtDelimiter delimiter lines).map fun (metadata, body) => (line ++ metadata, body)

/-- The front matter of a document: its kind, its metadata text and the body after it. -/
def frontMatter (source : List Char) :
    Except ParseFailure (Option (FrontMatterKind × List Char × List Char)) :=
  if '\n' ∉ source then .ok none
  else
    let first := trimEndMatches (· = '\r') (source.takeWhile (· ≠ '\n'))
    let rest := (source.dropWhile (· ≠ '\n')).drop 1
    let split (kind : FrontMatterKind) :
        Except ParseFailure (Option (FrontMatterKind × List Char × List Char)) :=
      match splitAtDelimiter first (splitInclusive rest) with
      | some (metadata, body) => .ok (some (kind, metadata, body))
      | none => .error ("invalid_front_matter", "front matter has no closing delimiter")
    if first = ['-', '-', '-'] then split .yaml
    else if first = ['+', '+', '+'] then split .toml
    else .ok none

def maxStructuredNesting : Nat := 32

def nestingFailure : ParseFailure :=
  ("structured_nesting", "structured metadata exceeds the nesting limit")

/-- The indentation levels after one line, innermost first. -/
def pushIndentation (levels : List Nat) (line : List Char) : List Nat :=
  let content := line.dropWhile (fun c => c = ' ' ∨ c = '\t')
  if content = [] ∨ content.head? = some '#' then levels
  else
    let indentation := line.length - content.length
    let outer := levels.dropWhile (fun level => level ≥ indentation)
    if indentation > 0 then indentation :: outer else outer

/-- Whether the indentation stays within the nesting limit on every line. -/
def indentationBounded : List Nat → List (List Char) → Bool
  | _, [] => true
  | levels, line :: lines =>
      let levels := pushIndentation levels line
      decide (levels.length ≤ maxStructuredNesting) && indentationBounded levels lines

/-- Whether the depth of open brackets outside quotes stays within the nesting limit. -/
def bracketsBounded (depth : Nat) (quote : Option Char) (escaped : Bool) : List Char → Bool
  | [] => true
  | c :: rest =>
      match quote with
      | some delimiter =>
          if delimiter = '"' ∧ c = '\\' ∧ escaped = false then
            bracketsBounded depth quote true rest
          else if c = delimiter ∧ escaped = false then bracketsBounded depth none false rest
          else bracketsBounded depth quote false rest
      | none =>
          if c = '\'' ∨ c = '"' then bracketsBounded depth (some c) escaped rest
          else if c = '[' ∨ c = '{' then
            decide (depth + 1 ≤ maxStructuredNesting) &&
              bracketsBounded (depth + 1) none escaped rest
          else if c = ']' ∨ c = '}' then bracketsBounded (depth - 1) none escaped rest
          else bracketsBounded depth none escaped rest

def validateStructuralNesting (source : List Char) : Except ParseFailure Unit :=
  if indentationBounded [] (lines source) && bracketsBounded 0 none false source then .ok ()
  else .error nestingFailure

/-! ### Identifiers -/

/-- Configurable literal prefixes used to recognize explicit identifiers. -/
structure IdPatterns where
  workItems : List String
  decisions : List String
  verifications : List String

def IdPatterns.default : IdPatterns where
  workItems := ["#", "ISSUE-", "STORY-"]
  decisions := ["ADR-"]
  verifications := ["VERIFY-"]

/-- A character that may follow an identifier prefix. -/
def isSuffixChar (c : Char) : Bool := isAsciiAlphanumeric c || c = '-' || c = '_'

def validPrefixed (id pre : List Char) : Bool :=
  pre.isPrefixOf id && !(id.drop pre.length).isEmpty && (id.drop pre.length).all isSuffixChar

def IdPatterns.kind (patterns : IdPatterns) (id : String) : Option NodeKind :=
  if patterns.decisions.any (fun pre => validPrefixed id.toList pre.toList) then some .decision
  else if patterns.verifications.any (fun pre => validPrefixed id.toList pre.toList) then
    some .verification
  else if patterns.workItems.any (fun pre => validPrefixed id.toList pre.toList) then
    some .workItem
  else none

/-- All prefixes, longer ones first. -/
def IdPatterns.prefixes (patterns : IdPatterns) : List String :=
  dedupBy (· == ·) <| sortBy (fun left right => compare right.utf8ByteSize left.utf8ByteSize)
    (patterns.workItems ++ patterns.decisions ++ patterns.verifications)

def boundaryBefore : Option Char → Bool
  | none => true
  | some c => !isAsciiAlphanumeric c && c ≠ '_'

/-- The identifiers that start exactly here, one for each prefix that fits. -/
def identifiersAt (prefixes : List (List Char)) (before : Option Char) (rest : List Char) :
    List String :=
  prefixes.filterMap fun pre =>
    if !pre.isPrefixOf rest || !boundaryBefore before then none
    else
      let suffix := (rest.drop pre.length).takeWhile isSuffixChar
      if suffix.isEmpty then none
      else if validPrefixed (pre ++ suffix) pre then some (String.ofList (pre ++ suffix)) else none

/-- The identifiers that start at each position of a text. -/
def scanIdentifiers (prefixes : List (List Char)) (before : Option Char) : List Char → List String
  | [] => []
  | c :: rest => identifiersAt prefixes before (c :: rest) ++ scanIdentifiers prefixes (some c) rest

def findIdentifiers (source : String) (patterns : IdPatterns) : List String :=
  sortUniq compare (scanIdentifiers (patterns.prefixes.map String.toList) none source.toList)

/-! ### Field checks -/

def validateId (id : String) : Except String Unit :=
  if id.isEmpty ∨ id.utf8ByteSize > 128 then
    .error "identifier must contain between 1 and 128 bytes"
  else if id.toList.all (fun c => isAsciiAlphanumeric c || ['#', '-', '_', '.', ':'].contains c)
  then .ok ()
  else .error "identifier contains unsupported characters"

def parseStatus (status : String) : Except ParseFailure RecordStatus :=
  if status = "accepted" ∨ status = "current" then .ok .current
  else if status = "historical" then .ok .historical
  else .error ("invalid_rationale", "status must be accepted, current, or historical")

/-- `Path::components` of a relative or absolute Unix path, checked one by one. -/
def normalizeComponents : List (List Char) → Except String (List (List Char))
  | [] => .ok []
  | part :: parts =>
      if part = [] ∨ part = ['.'] then normalizeComponents parts
      else if part = ['.', '.'] then .error "path must remain repository-relative"
      else if part = ['.', 'g', 'i', 't'] then .error "path enters Git internals"
      else (normalizeComponents parts).map (part :: ·)

def normalizePath (path : String) : Except String String :=
  if path.toList.head? = some '/' then .error "path must remain repository-relative"
  else match normalizeComponents (path.toList.splitOn '/') with
  | .error message => .error message
  | .ok [] => .error "path is empty after normalization"
  | .ok parts => .ok (String.ofList (List.intercalate ['/'] parts))

/-- `Path::extension`: what follows the last dot of the last component, unless the name starts with
    its only dot. -/
def extension (path : String) : Option (List Char) :=
  match (path.toList.splitOn '/').filter (fun part => part ≠ [] ∧ part ≠ ['.']) |>.getLast? with
  | none => none
  | some name =>
      if name = ['.', '.'] then none
      else match (name.splitOn '.').reverse with
      | ext :: stem :: others => if stem = [] ∧ others = [] then none else some ext
      | _ => none

def hasExtension (path : String) (expected : String) : Bool :=
  match extension path with
  | some ext => toAsciiLowercase ext = toAsciiLowercase expected.toList
  | none => false

def isVerificationManifest (path : String) : Bool :=
  let path := toAsciiLowercase path.toList
  ".rationale.toml".toList.isSuffixOf path || ".rationale.yaml".toList.isSuffixOf path ||
    ".rationale.yml".toList.isSuffixOf path

end Rationale.Docs
