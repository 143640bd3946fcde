import SourceCoverage.Condition

namespace SourceCoverage

structure Decision where
  marker : MarkerId
  tree : ConditionTree
deriving DecidableEq, Repr

structure Document where
  formatVersion : UInt32
  sourceHash : String
  /-- Hash of the settings that shape the instrumented text; empty when unknown. -/
  settingsHash : String
  markers : List Marker
  decisions : List Decision
deriving DecidableEq, Repr

/-- What makes a document unusable. -/
inductive Inconsistency where
  | repeatedMarker (id : MarkerId)
  | unknownMarker (decision id : MarkerId)
deriving DecidableEq, Repr

def Inconsistency.message : Inconsistency → String
  | repeatedMarker id => s!"marker id {id} appears twice"
  | unknownMarker decision id => s!"decision {decision} references unknown marker {id}"

/-- Every marker that a decision speaks of, in the order in which they are checked. -/
def Decision.references (d : Decision) : List MarkerId :=
  d.marker :: d.tree.conditions ++ d.tree.operatorMarkers

namespace Document

def currentFormat : UInt32 := 1

/-- The first id that was seen before. -/
def firstRepeated (seen : List MarkerId) : List Marker → Option MarkerId
  | [] => none
  | m :: markers => if seen.contains m.id then some m.id else firstRepeated (m.id :: seen) markers

/-- The first fault of a document: marker ids are unique, and decisions refer to known markers only. -/
def inconsistency? (d : Document) : Option Inconsistency :=
  match firstRepeated [] d.markers with
  | some id => some (.repeatedMarker id)
  | none =>
    let known := d.markers.map Marker.id
    d.decisions.findSome? fun decision =>
      (decision.references.find? (! known.contains ·)).map (.unknownMarker decision.marker ·)

def marker? (d : Document) (id : MarkerId) : Option Marker := d.markers.find? (·.id == id)

def decision? (d : Document) (id : MarkerId) : Option Decision := d.decisions.find? (·.marker == id)

def checkpoints (d : Document) : List Marker := d.markers.filter Marker.isCheckpoint

def evaluations (d : Document) (kind : EvaluationKind) : List Marker :=
  d.markers.filter (·.evaluationKind? == some kind)

end Document

end SourceCoverage
