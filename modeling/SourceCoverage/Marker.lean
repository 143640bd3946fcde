import SourceCoverage.Position

namespace SourceCoverage

/-- Markers of one file are numbered from one. -/
abbrev MarkerId := UInt32

inductive EvaluationKind where
  /-- A whole boolean control expression, or an operator inside one. -/
  | decision
  /-- An operand that no operator divides further. -/
  | condition
deriving DecidableEq, Repr

def EvaluationKind.text : EvaluationKind → String
  | decision => "decision"
  | condition => "condition"

inductive MarkerKind where
  | checkpoint
  | evaluation (kind : EvaluationKind)
deriving DecidableEq, Repr

inductive Location where
  | point (position : Position)
  | extent (sect : Section)
deriving DecidableEq, Repr

def Location.start : Location → Position
  | point position => position
  | extent sect => sect.start

/-- One probed place. `scopeEnd` belongs to a checkpoint on a statement that stands alone as the body
of a control statement, which has to be braced to hold the probe. -/
structure Marker where
  id : MarkerId
  kind : MarkerKind
  location : Location
  scopeEnd : Option Position := none
deriving DecidableEq, Repr

namespace Marker

def checkpoint (id : MarkerId) (position : Position) : Marker := ⟨id, .checkpoint, .point position, none⟩

def evaluation (id : MarkerId) (sect : Section) (kind : EvaluationKind) : Marker :=
  ⟨id, .evaluation kind, .extent sect, none⟩

def isCheckpoint (m : Marker) : Bool := m.kind == .checkpoint

def evaluationKind? (m : Marker) : Option EvaluationKind :=
  match m.kind with
  | .checkpoint => none
  | .evaluation kind => some kind

def start (m : Marker) : Position := m.location.start

def extent? (m : Marker) : Option Section :=
  match m.location with
  | .point _ => none
  | .extent sect => some sect

/-- The statement that a scoped checkpoint braces. -/
def scope? (m : Marker) : Option Section := m.scopeEnd.map fun stop => ⟨m.start, stop⟩

/-- Checkpoints stand outside decisions, and decisions outside conditions, on one section. -/
def rank (m : Marker) : Nat :=
  match m.kind with
  | .checkpoint => 0
  | .evaluation .decision => 1
  | .evaluation .condition => 2

/-- Longer sections first; without two sections there is nothing to tell apart. -/
def compareExtents : Option Section → Option Section → Ordering
  | some s, some t => compare t.stop s.stop
  | _, _ => .eq

/-- Document order: by start; at one start the checkpoint, then the longer section, then the decision,
then the lower id. -/
def order (m n : Marker) : Ordering :=
  (compare m.start n.start).then <|
  (compare n.isCheckpoint m.isCheckpoint).then <|
  (compareExtents m.extent? n.extent?).then <|
  (compare m.rank n.rank).then <|
  compare m.id n.id

end Marker

end SourceCoverage
