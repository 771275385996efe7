import Mathlib.Algebra.Group.Nat.Defs
import Mathlib.Data.List.Basic

namespace Rationale.Text

/-!
# Text functions of the standard library

The `str` and `char` functions that several crates use, over character lists.
-/

/-- `char::is_ascii_alphanumeric`. -/
def isAsciiAlphanumeric (c : Char) : Bool := c.isAlphanum

/-- `char::is_whitespace`: the Unicode property `White_Space`. -/
def isWhitespace (c : Char) : Bool :=
  (9 ≤ c.toNat && c.toNat ≤ 13) || (0x2000 ≤ c.toNat && c.toNat ≤ 0x200A) ||
    [0x20, 0x85, 0xA0, 0x1680, 0x2028, 0x2029, 0x202F, 0x205F, 0x3000].contains c.toNat

/-- `text.trim().is_empty()`. -/
def isBlank (text : String) : Bool := text.toList.all isWhitespace

/-- `str::to_ascii_lowercase`. -/
def toAsciiLowercase (text : List Char) : List Char := text.map Char.toLower

/-- `str::trim_end_matches`. -/
def trimEndMatches (p : Char → Bool) (text : List Char) : List Char :=
  (text.reverse.dropWhile p).reverse

/-- `str::trim_matches`. -/
def trimMatches (p : Char → Bool) (text : List Char) : List Char :=
  trimEndMatches p (text.dropWhile p)

/-- `str::trim`. -/
def trim (text : List Char) : List Char := trimMatches isWhitespace text

/-- `str::strip_prefix`. -/
def stripPrefix (pre text : List Char) : Option (List Char) :=
  if pre.isPrefixOf text then some (text.drop pre.length) else none

/-- `str::strip_suffix`. -/
def stripSuffix (suf text : List Char) : Option (List Char) :=
  (stripPrefix suf.reverse text.reverse).map List.reverse

/-- `str::split_whitespace`. -/
def splitWhitespace (text : List Char) : List (List Char) :=
  (text.splitOnP isWhitespace).filter (· ≠ [])

/-- `str::split_once`: the parts before and after the first separator. -/
def splitOnce (separator : Char) (text : List Char) : Option (List Char × List Char) :=
  if separator ∈ text then
    some (text.takeWhile (· ≠ separator), (text.dropWhile (· ≠ separator)).drop 1)
  else none

/-- `str::rsplit_once`: the parts before and after the last separator. -/
def rsplitOnce (separator : Char) (text : List Char) : Option (List Char × List Char) :=
  (splitOnce separator text.reverse).map fun (after, before) => (before.reverse, after.reverse)

/-- `str::parse::<u64>`: decimal digits, after an optional plus sign, below `2 ^ 64`. -/
def parseU64 (text : List Char) : Option Nat :=
  let digits := match text with
    | '+' :: rest => rest
    | _ => text
  if digits = [] ∨ digits.any (fun c => !c.isDigit) then none
  else
    let number := digits.foldl (fun n c => 10 * n + (c.toNat - '0'.toNat)) 0
    if number < 2 ^ 64 then some number else none

/-- `str::split_inclusive('\n')`. -/
def splitInclusive : List Char → List (List Char)
  | [] => []
  | c :: rest =>
      if c = '\n' then [c] :: splitInclusive rest
      else match splitInclusive rest with
      | [] => [[c]]
      | line :: lines => (c :: line) :: lines

/-- A line without its `\n` or `\r\n`. -/
def stripLineEnding (line : List Char) : List Char :=
  match line.reverse with
  | '\n' :: '\r' :: rest => rest.reverse
  | '\n' :: rest => rest.reverse
  | _ => line

/-- `str::lines`. -/
def lines (text : List Char) : List (List Char) := (splitInclusive text).map stripLineEnding

/-- `Vec::dedup_by` after a first item: drop every item that repeats the last one kept. -/
def dedupAfter {α : Type} (same : α → α → Bool) (kept : α) : List α → List α
  | [] => [kept]
  | a :: rest => if same kept a then dedupAfter same kept rest else kept :: dedupAfter same a rest

/-- `Vec::dedup_by`. -/
def dedupBy {α : Type} (same : α → α → Bool) : List α → List α
  | [] => []
  | a :: rest => dedupAfter same a rest

end Rationale.Text
