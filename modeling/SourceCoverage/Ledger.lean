import SourceCoverage.Document

namespace SourceCoverage

/-- The ledger of one source file. Markers are entered in the order in which they are found and numbered from one. -/
structure Ledger where
  sourceHash : String
  /-- The last number that was given. -/
  lastId : MarkerId := 0
  /-- In the order of entry. -/
  markers : List Marker := []
  /-- Which checkpoint starts at a position; the latest entry comes first. -/
  checkpoints : List (Position × MarkerId) := []
  /-- Which evaluation of a kind is on a section; the latest entry comes first. -/
  evaluations : List ((Section × EvaluationKind) × MarkerId) := []
  decisions : List Decision := []
deriving DecidableEq, Repr

/-- Why an entry is refused: what it would repeat, and the marker that is there already. -/
inductive Duplicate where
  | checkpoint (position : Position) (existing : MarkerId)
  | evaluation (sect : Section) (kind : EvaluationKind) (existing : MarkerId)
deriving DecidableEq, Repr

/-- Entries into a ledger. What was entered before a refusal stays entered. -/
abbrev Registration := ExceptT Duplicate (StateM Ledger)

namespace Registration

/-- Gives out the next number. -/
def nextId : Registration MarkerId := do
  modify fun ledger => { ledger with lastId := ledger.lastId + 1 }
  return (← get).lastId

/-- A checkpoint, braced up to `scopeEnd` if that is given. One position holds one checkpoint. -/
def checkpoint (position : Position) (scopeEnd : Option Position) : Registration MarkerId := do
  match (← get).checkpoints.lookup position with
  | some existing => throw (.checkpoint position existing)
  | none =>
    let id ← nextId
    modify fun ledger => { ledger with
      checkpoints := (position, id) :: ledger.checkpoints
      markers := ledger.markers ++ [{ Marker.checkpoint id position with scopeEnd }] }
    return id

/-- An evaluation. One section holds one evaluation of each kind. -/
def evaluation (sect : Section) (kind : EvaluationKind) : Registration MarkerId := do
  match (← get).evaluations.lookup (sect, kind) with
  | some existing => throw (.evaluation sect kind existing)
  | none =>
    let id ← nextId
    modify fun ledger => { ledger with
      evaluations := ((sect, kind), id) :: ledger.evaluations
      markers := ledger.markers ++ [.evaluation id sect kind] }
    return id

def record (decision : Decision) : Registration Unit :=
  modify fun ledger => { ledger with decisions := ledger.decisions ++ [decision] }

end Registration

namespace Ledger

/-- What can be entered. -/
inductive Entry where
  | checkpoint (position : Position)
  /-- A checkpoint that braces a statement. -/
  | braced (sect : Section)
  | evaluation (sect : Section) (kind : EvaluationKind)
  | decision (record : Decision)
deriving DecidableEq, Repr

/-- Makes an entry; markers are given their number, decisions need none. -/
def Entry.register : Entry → Registration (Option MarkerId)
  | .checkpoint position => some <$> Registration.checkpoint position none
  | .braced sect => some <$> Registration.checkpoint sect.start (some sect.stop)
  | .evaluation sect kind => some <$> Registration.evaluation sect kind
  | .decision record => do
    Registration.record record
    return none

/-- The document: markers in reading order, decisions by their marker. -/
def finalize (ledger : Ledger) : Document where
  formatVersion := Document.currentFormat
  sourceHash := ledger.sourceHash
  settingsHash := ""
  markers := ledger.markers.mergeSort fun m n => (m.order n).isLE
  decisions := ledger.decisions.mergeSort fun d e => decide (d.marker ≤ e.marker)

end Ledger

end SourceCoverage
