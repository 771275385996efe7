import Rationale.Protocol

namespace Rationale.Git

/-!
# Resolved Git evidence

The types of `crates/rationale-git/src/lib.rs` that the engine consumes.  Git itself is another
program: what it resolves is input to the model.
-/

/-- Category of an explicit commit-message reference. -/
inductive ReferenceKind where
  | issue
  | story
  | decision
  | forgeUrl
  deriving DecidableEq, Repr

/-- One explicit reference copied from commit metadata. -/
structure ExplicitReference where
  kind : ReferenceKind
  value : String
  deriving DecidableEq, Repr

/-- Stable commit metadata used for evidence records and citations. -/
structure CommitEvidence where
  id : String
  summary : String
  committedAt : Int
  references : List ExplicitReference
  deriving DecidableEq, Repr

/-- Blame-backed attribution for one requested line. -/
structure LineAttribution where
  line : Nat
  commitId : String
  deriving DecidableEq, Repr

/-- One commit that explicitly changed the target path in Git history. -/
structure PathChange where
  commit : CommitEvidence
  path : String
  deriving DecidableEq, Repr

/-- Bounded commit history used during local evidence synchronization. -/
structure CommitHistory where
  /-- Topological, newest first. -/
  commits : List CommitEvidence
  complete : Bool
  deriving DecidableEq, Repr

/-- Resolved local Git evidence for a commit or line range. -/
inductive ResolvedTarget where
  | commit (commit : CommitEvidence)
  | lines (path : String) (startLine endLine : Nat) (revision : String)
      (introducedBy : List LineAttribution) (changedBy : List PathChange)
  deriving DecidableEq, Repr

end Rationale.Git
