import Mathlib.Data.List.Forall2
import SourceCoverage.Proofs.Finder.Entered

namespace SourceCoverage

open Finder

/-- A tree of ids depicts an expression whose parts are among the markers. -/
inductive ConditionTree.Depicts (markers : List Marker) : ConditionTree → DecisionExpr → Prop
  | condition {node : SyntaxNode} {id : MarkerId} (entered : Marker.evaluation id node.sect .condition ∈ markers) :
      Depicts markers (.condition id) (.leaf node)
  | not {sect : Section} {operand : DecisionExpr} {tree : ConditionTree} (inner : Depicts markers tree operand) :
      Depicts markers (.not tree) (.not sect operand)
  | join {op : Connective} {sect : Section} {l r : DecisionExpr} {left right : ConditionTree}
      {marker : Option MarkerId}
      (first : Depicts markers left l) (second : Depicts markers right r)
      (operator : ∀ id ∈ marker, Marker.evaluation id sect .decision ∈ markers) :
      Depicts markers (.join op left right marker) (.join op sect l r)

/-- A record of the decision that an expression makes. -/
structure Decision.Depicts (markers : List Marker) (d : Decision) (expr : DecisionExpr) : Prop where
  entered : Marker.evaluation d.marker expr.sect .decision ∈ markers
  tree : d.tree.Depicts markers expr

namespace Finder

variable {policy : DecisionPolicy} {markers : List Marker}

mutual

/-- The expressions of the decisions that a step enters, in the order of the walk. -/
def Step.expressions : Step → List DecisionExpr
  | .checkpoint _ _ => []
  | .decision expr inside => expr :: expressionsAll inside
  | .visit steps => expressionsAll steps

def expressionsAll : List Step → List DecisionExpr
  | [] => []
  | step :: steps => step.expressions ++ expressionsAll steps

end

theorem expressionsAll_eq_flatMap (steps : List Step) : expressionsAll steps = steps.flatMap Step.expressions := by
  induction steps with
  | nil => rfl
  | cons step steps ih => rw [expressionsAll, ih, List.flatMap_cons]

theorem numbered_cons (count : Nat) (f : Finding) (findings : List Finding) :
    numbered count (f :: findings) = f.marker (count + 1).toUInt32 :: numbered (count + 1) findings := rfl

theorem depicts_treeOf {isRoot : Bool} {expr : DecisionExpr} {count : Nat}
    (entered : numbered count (treeFindings policy isRoot expr) ⊆ markers) :
    (treeOf policy isRoot count expr).Depicts markers expr := by
  induction expr generalizing isRoot count with
  | leaf node => exact .condition (entered List.mem_cons_self)
  | not sect operand ih => exact .not (ih entered)
  | join op sect left right leftIh rightIh =>
    rw [treeFindings, numbered_append, numbered_append, List.append_subset, List.append_subset] at entered
    obtain ⟨own, inLeft, inRight⟩ := entered
    have length : count + (if !isRoot && policy == .allNodes then [Finding.evaluation sect .decision]
      else []).length =
        if !isRoot && policy == .allNodes then count + 1 else count := by
      split <;> rfl
    rw [length] at inLeft inRight
    refine .join (leftIh inLeft) (rightIh inRight) ?_
    intro id marked
    split at marked
    · rename_i probed
      rw [if_pos probed] at own
      obtain rfl := Option.some.inj marked
      exact own List.mem_cons_self
    · cases marked

theorem depicts_decisionOf {expr : DecisionExpr} {count : Nat}
    (entered : numbered count (decisionFindings policy expr []) ⊆ markers) :
    (decisionOf policy count expr).Depicts markers expr := by
  rw [decisionFindings, List.append_nil, numbered_cons, List.cons_subset] at entered
  exact ⟨entered.1, depicts_treeOf entered.2⟩

mutual

theorem depicts_step (step : Step) {count : Nat} (entered : numbered count (step.findings policy) ⊆ markers) :
    List.Forall₂ (Decision.Depicts markers) (step.decisions policy count) step.expressions := by
  match step with
  | .checkpoint sect braced => exact .nil
  | .decision expr inside =>
    rw [Step.findings_decision, numbered_append, List.append_subset] at entered
    exact .cons (depicts_decisionOf entered.1) (depicts_steps inside entered.2)
  | .visit steps =>
    rw [Step.findings] at entered
    exact depicts_steps steps entered

/-- There is one record for each decision, in the order of the walk, and it depicts the decision. -/
theorem depicts_steps (steps : List Step) {count : Nat}
    (entered : numbered count (findingsAll policy steps) ⊆ markers) :
    List.Forall₂ (Decision.Depicts markers) (decisionsAll policy count steps) (expressionsAll steps) := by
  match steps with
  | [] => exact .nil
  | step :: steps =>
    rw [findingsAll, numbered_append, List.append_subset] at entered
    exact List.rel_append (depicts_step step entered.1) (depicts_steps steps entered.2)

end

/-- The records of a walk that fails nowhere depict the decisions of its steps, one each. -/
theorem depicts_walk {root : SyntaxNode} {hash : String}
    (success : (walk policy root { sourceHash := hash }).failure = none) :
    List.Forall₂ (Decision.Depicts (walk policy root { sourceHash := hash }).ledger.markers)
      (walk policy root { sourceHash := hash }).ledger.decisions
      (expressionsAll ((visits root).asNode false .nested)) := by
  have grows := (goesOn_walk success).grows
  rw [grows.decisions]
  refine depicts_steps _ ?_
  rw [grows.markers]
  exact List.Subset.refl _

end Finder

end SourceCoverage
