import SourceCoverage.Document
import SourceCoverage.Json.Record

namespace SourceCoverage

open Json

namespace Position

def toJson (p : Position) : Json :=
  .record [("line", .ofNat p.line.toNat), ("column", .ofNat p.column.toNat)]

def ofJson? (json : Json) : Option Position := do
  match ← json.fields? ["line", "column"] with
  | [line, column] => return ⟨← required word? line, ← required word? column⟩
  | _ => none

end Position

namespace Section

def toJson (s : Section) : Json := .record [("start", s.start.toJson), ("end", s.stop.toJson)]

def ofJson? (json : Json) : Option Section := do
  match ← json.fields? ["start", "end"] with
  | [start, stop] => return ⟨← required Position.ofJson? start, ← required Position.ofJson? stop⟩
  | _ => none

end Section

namespace Marker

/-- The section of an evaluation, empty if it is only a point. -/
def writtenExtent (m : Marker) : Section :=
  match m.location with
  | .point position => ⟨position, position⟩
  | .extent sect => sect

def toJson (m : Marker) : Json :=
  match m.kind with
  | .checkpoint =>
    .record [("id", .ofNat m.id.toNat), ("kind", .ofString "checkpoint"), ("position", m.start.toJson)]
  | .evaluation kind =>
    .record [("id", .ofNat m.id.toNat), ("kind", .ofString "evaluation"),
      ("eval_type", .ofString kind.text), ("section", m.writtenExtent.toJson)]

def ofJson? (json : Json) : Option Marker := do
  match ← json.fields? ["id", "kind", "eval_type", "position", "section"] with
  | [id, kind, evaluationKind, position, sect] =>
    let id ← required word? id
    let isCheckpoint ← required (wordIn? [("checkpoint", true), ("evaluation", false)]) kind
    let evaluationKind ← optional
      (wordIn? [("decision", EvaluationKind.decision), ("condition", EvaluationKind.condition)])
      evaluationKind
    let position ← optional Position.ofJson? position
    let sect ← optional Section.ofJson? sect
    if isCheckpoint then position.map (Marker.checkpoint id)
    else return Marker.evaluation id (← sect) (← evaluationKind)
  | _ => none

end Marker

namespace ConditionTree

def toJson : ConditionTree → Json
  | .condition id => .record [("op", .ofString "condition"), ("id", .ofNat id.toNat)]
  | .not operand => .record [("op", .ofString "not"), ("operand", operand.toJson)]
  | .join op left right marker =>
    .record ([("op", .ofString op.text), ("left", left.toJson), ("right", right.toJson)] ++
      match marker with
      | none => []
      | some id => [("evaluation", .ofNat id.toNat)])

/-- The form of a node. -/
inductive Shape where
  | condition
  | not
  | join (op : Connective)
deriving DecidableEq, Repr

def shapes : List (String × Shape) :=
  [("condition", .condition), ("not", .not), ("and", .join .and), ("or", .join .or)]

/-- A tag is the name of a form; inside a tree it may also be its index. -/
def shape? (inner : Bool) (tag : Json) : Option Shape :=
  match tag with
  | .text raw => (decodeText raw).bind fun name => shapes.lookup name
  | .number n => if inner then n.nat?.bind fun index => shapes[index]?.map Prod.snd else none
  | _ => none

/-- A tree of at most `levels` levels. -/
def ofNested? : (levels : Nat) → (inner : Bool) → Json → Option ConditionTree
  | 0, _, _ => none
  | levels + 1, inner, json => do
    let (tag, rest) ← json.tagged? "op"
    match ← shape? inner tag with
    | .condition =>
      match ← rest.fields? ["id"] with
      | [id] => return .condition (← required word? id)
      | _ => none
    | .not =>
      match ← rest.fields? ["operand"] with
      | [operand] => return .not (← required (ofNested? levels true) operand)
      | _ => none
    | .join op =>
      match ← rest.fields? ["left", "right", "evaluation"] with
      | [left, right, marker] =>
        let left ← required (ofNested? levels true) left
        let right ← required (ofNested? levels true) right
        return .join op left right (← optional word? marker)
      | _ => none

/-- The levels around a condition tree: the document, the array of its decisions and the decision. -/
def enclosingLevels : Nat := 3

/-- The deepest nesting of a condition tree with which a document stays below the limit of the reader. -/
def maximalDepth : Nat := recursionLimit - 1 - enclosingLevels

/-- Trees are read as a whole before their form is known, so nothing in them may be unreadable, not
even what is passed over. -/
def ofJson? (json : Json) : Option ConditionTree :=
  if json.depth ≤ maximalDepth && json.isInterpretable then ofNested? maximalDepth false json else none

end ConditionTree

namespace Decision

def toJson (d : Decision) : Json :=
  .record [("decision", .ofNat d.marker.toNat), ("tree", d.tree.toJson)]

def ofJson? (json : Json) : Option Decision := do
  match ← json.fields? ["decision", "tree"] with
  | [marker, tree] => return ⟨← required word? marker, ← required ConditionTree.ofJson? tree⟩
  | _ => none

end Decision

namespace Document

def toJson (d : Document) : Json :=
  .record [("format_version", .ofNat d.formatVersion.toNat), ("source_code_hash", .ofString d.sourceHash),
    ("config_fingerprint", .ofString d.settingsHash), ("markers", .array (d.markers.map Marker.toJson)),
    ("decisions", .array (d.decisions.map Decision.toJson))]

def ofJson? (json : Json) : Option Document := do
  match ← json.fields? ["format_version", "source_code_hash", "config_fingerprint", "markers", "decisions"] with
  | [version, sourceHash, settingsHash, markers, decisions] => return {
      formatVersion := ← defaulted word? currentFormat version
      sourceHash := ← required string? sourceHash
      settingsHash := ← defaulted string? "" settingsHash
      markers := ← required (list? Marker.ofJson?) markers
      decisions := ← defaulted (list? Decision.ofJson?) [] decisions }
  | _ => none

/-- The text of a document file. -/
def text (d : Document) : Octets := d.toJson.pretty 0

end Document

end SourceCoverage
