import SourceCoverage.Ledger
import SourceCoverage.Decision.Expression

namespace SourceCoverage

/-- Which nodes of a decision are probed. -/
inductive DecisionPolicy where
  /-- The decision and its conditions. -/
  | leaves
  /-- The operators between them too. -/
  | allNodes
deriving DecidableEq, Repr

/-- The policy that settings and command lines call by a name. -/
def DecisionPolicy.ofName? : String → Option DecisionPolicy
  | "leaves" => some .leaves
  | "all-nodes" => some .allNodes
  | _ => none

/-- A decision that was entered. -/
structure Decomposition where
  record : Decision
  /-- The nodes of its conditions, in source order. -/
  leaves : List SyntaxNode

namespace Registration

/-- The marker of an operator, if it gets one. -/
def operator (policy : DecisionPolicy) (isRoot : Bool) (sect : Section) : Registration (Option MarkerId) :=
  if !isRoot && policy == .allNodes then do
    let id ← evaluation sect .decision
    return some id
  else return none

/-- Enters the conditions of an expression, and its operators where the policy asks for them, from the outside in and
from left to right. The nodes of the conditions come after the given ones. -/
def tree (policy : DecisionPolicy) (isRoot : Bool) :
    DecisionExpr → List SyntaxNode → Registration (ConditionTree × List SyntaxNode)
  | .leaf node, leaves => do
    let id ← evaluation node.sect .condition
    return (.condition id, leaves ++ [node])
  | .not _ operand, leaves => do
    let (operand, leaves) ← tree policy false operand leaves
    return (.not operand, leaves)
  | .join op sect left right, leaves => do
    let marker ← operator policy isRoot sect
    let (left, leaves) ← tree policy false left leaves
    let (right, leaves) ← tree policy false right leaves
    return (.join op left right marker, leaves)

/-- Enters a decision. It is recorded once all of it is entered. -/
def decision (policy : DecisionPolicy) (expr : DecisionExpr) : Registration Decomposition := do
  let marker ← evaluation expr.sect .decision
  let (tree, leaves) ← tree policy true expr []
  record ⟨marker, tree⟩
  return ⟨⟨marker, tree⟩, leaves⟩

end Registration

end SourceCoverage
