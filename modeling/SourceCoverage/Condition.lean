import SourceCoverage.Marker

namespace SourceCoverage

inductive Connective where
  | and
  | or
deriving DecidableEq, Repr

def Connective.text : Connective → String
  | and => "and"
  | or => "or"

/-- `marker` is the evaluation marker of an operator inside a decision, where operators are probed. -/
inductive ConditionTree where
  | condition (id : MarkerId)
  | not (operand : ConditionTree)
  | join (op : Connective) (left right : ConditionTree) (marker : Option MarkerId)
deriving DecidableEq, Repr

/-- How a condition bears on its decision: inverted under an odd number of negations. -/
inductive Polarity where
  | direct
  | inverted
deriving DecidableEq, Repr

def Polarity.flip : Polarity → Polarity
  | direct => inverted
  | inverted => direct

def Polarity.text : Polarity → String
  | direct => "direct"
  | inverted => "inverted"

/-- What a short-circuit evaluation gives: the outcome, and the conditions looked at, in order. -/
structure Evaluation where
  outcome : Bool
  evaluated : List MarkerId
deriving DecidableEq, Repr

namespace ConditionTree

def polaritiesUnder (polarity : Polarity) : ConditionTree → List (MarkerId × Polarity)
  | condition id => [(id, polarity)]
  | not operand => operand.polaritiesUnder polarity.flip
  | join _ left right _ => left.polaritiesUnder polarity ++ right.polaritiesUnder polarity

/-- The conditions in source order, each with its polarity. -/
def polarities (t : ConditionTree) : List (MarkerId × Polarity) := t.polaritiesUnder .direct

/-- The conditions in source order. -/
def conditions (t : ConditionTree) : List MarkerId := t.polarities.map Prod.fst

/-- The markers of probed operators, an operator before its operands. -/
def operatorMarkers : ConditionTree → List MarkerId
  | condition _ => []
  | not operand => operand.operatorMarkers
  | join _ left right marker => marker.toList ++ left.operatorMarkers ++ right.operatorMarkers

/-- Evaluation as the operators do it: the right operand only if the left one leaves the outcome open. -/
def run (value : MarkerId → Bool) : ConditionTree → Evaluation
  | condition id => ⟨value id, [id]⟩
  | not operand =>
    let inner := operand.run value
    ⟨!inner.outcome, inner.evaluated⟩
  | join op left right _ =>
    let first := left.run value
    let settled := match op with
      | .and => !first.outcome
      | .or => first.outcome
    if settled then first
    else
      let second := right.run value
      ⟨second.outcome, first.evaluated ++ second.evaluated⟩

/-- The boolean value, every operand being looked at. -/
def value (assignment : MarkerId → Bool) : ConditionTree → Bool
  | condition id => assignment id
  | not operand => !operand.value assignment
  | join .and left right _ => left.value assignment && right.value assignment
  | join .or left right _ => left.value assignment || right.value assignment

/-- Nodes on the longest way from the root to a condition. -/
def depth : ConditionTree → Nat
  | condition _ => 1
  | not operand => operand.depth + 1
  | join _ left right _ => max left.depth right.depth + 1

end ConditionTree

end SourceCoverage
