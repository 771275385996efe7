import Rationale.Text

namespace Rationale.Git

open Rationale.Text

/-!
# Target syntax

`TargetSpec` of `crates/rationale-git/src/target.rs`, with the text of each rejection.
-/

/-- Maximum UTF-8 byte length accepted by the public target syntax. -/
def maxTargetBytes : Nat := 4096

/-- Maximum number of lines resolved by one target request. -/
def maxTargetLines : Nat := 4096

/-- A repository target accepted by local Git resolution. -/
inductive TargetSpec where
  | commit (revision : String)
  | lines (path : String) (startLine endLine : Nat) (revision : Option String)
  deriving DecidableEq, Repr

def parseLine (value : List Char) : Except String Nat :=
  match parseU64 value with
  | none => .error ("invalid one-based line number: " ++ String.ofList value)
  | some 0 => .error "line numbers are one-based"
  | some line => .ok line

/-- The revision after the `@` of a location, if there is one. -/
def parseRevision (location : List Char) : Except String (List Char × Option String) :=
  match splitOnce '@' location with
  | some (_, []) => .error "historical line target has an empty revision"
  | some (range, revision) => .ok (range, some (String.ofList revision))
  | none => .ok (location, none)

def parseRange (range : List Char) : Except String (Nat × Nat) :=
  match splitOnce '-' range with
  | some (first, last) => do
      let startLine ← parseLine first
      let endLine ← parseLine last
      return (startLine, endLine)
  | none => do
      let line ← parseLine range
      return (line, line)

/-- `TargetSpec::from_str`. -/
def TargetSpec.fromStr (input : String) : Except String TargetSpec :=
  if input.utf8ByteSize > maxTargetBytes then .error s!"target exceeds {maxTargetBytes} bytes"
  else match stripPrefix "commit:".toList input.toList with
  | some revision =>
      if revision = [] ∨ revision.any isWhitespace then
        .error "commit target requires one non-empty revision"
      else .ok (.commit (String.ofList revision))
  | none => match rsplitOnce ':' input.toList with
    | none => .error "line target must use path:start[-end][@revision]"
    | some (path, location) => do
        if path = [] then throw "line target path is empty"
        let (range, revision) ← parseRevision location
        let (startLine, endLine) ← parseRange range
        if startLine > endLine then throw "line range starts after it ends"
        if endLine - startLine + 1 > maxTargetLines then
          throw s!"line range exceeds {maxTargetLines} lines"
        return .lines (String.ofList path) startLine endLine revision

end Rationale.Git
