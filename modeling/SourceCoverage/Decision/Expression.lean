import SourceCoverage.Condition
import SourceCoverage.SyntaxTree

namespace SourceCoverage

/-- An expression divided at its logical operators. Operators keep their section, conditions their node. -/
inductive DecisionExpr where
  | leaf (node : SyntaxNode)
  | not (sect : Section) (operand : DecisionExpr)
  | join (op : Connective) (sect : Section) (left right : DecisionExpr)
deriving Repr

def ExpressionKind.connective? : ExpressionKind → Option Connective
  | and => some .and
  | or => some .or
  | _ => none

def NodeKind.connective? : NodeKind → Option Connective
  | expression kind => kind.connective?
  | _ => none

namespace DecisionExpr

mutual

/-- An operator that lacks an operand is a condition like any other expression. -/
def ofNode : SyntaxNode → DecisionExpr
  | .node (.expression .parenthesized) _ _ [inner] => ofNode inner
  | .node (.expression .not) role sect children =>
    match ofFirst .operand children with
    | some operand => .not sect operand
    | none => .leaf (.node (.expression .not) role sect children)
  | .node kind role sect children =>
    match kind.connective?, ofFirst .left children, ofFirst .right children with
    | some op, some left, some right => .join op sect left right
    | _, _, _ => .leaf (.node kind role sect children)

/-- The structure of the first node that plays a role. -/
def ofFirst (role : Role) : List SyntaxNode → Option DecisionExpr
  | [] => none
  | n :: rest => if n.role == role then some (ofNode n) else ofFirst role rest

end

def sect : DecisionExpr → Section
  | leaf node => node.sect
  | not sect _ => sect
  | join _ sect _ _ => sect

/-- The conditions, in source order. -/
def leaves : DecisionExpr → List SyntaxNode
  | leaf node => [node]
  | not _ operand => operand.leaves
  | join _ _ left right => left.leaves ++ right.leaves

def leafCount : DecisionExpr → Nat
  | leaf _ => 1
  | not _ operand => operand.leafCount
  | join _ _ left right => left.leafCount + right.leafCount

theorem length_leaves (e : DecisionExpr) : e.leaves.length = e.leafCount := by
  induction e with
  | leaf _ => rfl
  | not _ _ ih => simpa [leaves, leafCount] using ih
  | join _ _ _ _ left right => simp [leaves, leafCount, left, right]

end DecisionExpr

end SourceCoverage
