import SourceCoverage.Proofs.Finder.Blocks
import SourceCoverage.Proofs.Finder.Decisions

namespace SourceCoverage

open Finder

namespace DecisionExpr

/-- An expression and all expressions inside it, each before its operands. -/
def preorder : DecisionExpr → List DecisionExpr
  | leaf node => [leaf node]
  | not sect operand => not sect operand :: operand.preorder
  | join op sect left right => join op sect left right :: (left.preorder ++ right.preorder)

/-- The marker of one expression inside a decision: conditions have one, and, where the policy asks for it, the
operators that join others, unless they are the decision itself. -/
def probe? (policy : DecisionPolicy) (isRoot : Bool) : DecisionExpr → Option Finding
  | leaf node => some (.evaluation node.sect .condition)
  | not _ _ => none
  | join _ sect _ _ => if !isRoot && policy == .allNodes then some (.evaluation sect .decision) else none

/-- All that is entered for a decision, in order. -/
def registrations (policy : DecisionPolicy) (expr : DecisionExpr) : List Finding :=
  .evaluation expr.sect .decision :: expr.preorder.zipIdx.filterMap fun (e, index) => e.probe? policy (index == 0)

/-- Evaluation as the language prescribes it. The conditions are told apart by their index in source order, `first`
being that of the first condition of the expression; `order` are those which are looked at. -/
inductive Evaluates (truth : Nat → Bool) : (first : Nat) → DecisionExpr → (outcome : Bool) → (order : List Nat) → Prop
  | leaf {first : Nat} {node : SyntaxNode} : Evaluates truth first (.leaf node) (truth first) [first]
  | not {first : Nat} {sect : Section} {operand : DecisionExpr} {outcome : Bool} {order : List Nat}
      (inner : Evaluates truth first operand outcome order) : Evaluates truth first (.not sect operand)
        (!outcome) order
  | andFalse {first : Nat} {sect : Section} {left right : DecisionExpr} {order : List Nat}
      (fails : Evaluates truth first left false order) : Evaluates truth first (.join .and sect left right)
        false order
  | andTrue {first : Nat} {sect : Section} {left right : DecisionExpr} {outcome : Bool} {order order' : List Nat}
      (holds : Evaluates truth first left true order)
      (rest : Evaluates truth (first + left.leafCount) right outcome order') :
      Evaluates truth first (.join .and sect left right) outcome (order ++ order')
  | orTrue {first : Nat} {sect : Section} {left right : DecisionExpr} {order : List Nat}
      (holds : Evaluates truth first left true order) : Evaluates truth first (.join .or sect left right) true order
  | orFalse {first : Nat} {sect : Section} {left right : DecisionExpr} {outcome : Bool} {order order' : List Nat}
      (fails : Evaluates truth first left false order)
      (rest : Evaluates truth (first + left.leafCount) right outcome order') :
      Evaluates truth first (.join .or sect left right) outcome (order ++ order')

theorem Evaluates.unique {truth : Nat → Bool} {first : Nat} {expr : DecisionExpr} {outcome outcome' : Bool}
    {order order' : List Nat} (evaluates : expr.Evaluates truth first outcome order)
    (evaluates' : expr.Evaluates truth first outcome' order') : outcome = outcome' ∧ order = order' := by
  induction evaluates generalizing outcome' order' with
  | leaf =>
    cases evaluates'
    exact ⟨rfl, rfl⟩
  | not _ ih =>
    cases evaluates' with
    | not inner =>
      obtain ⟨rfl, rfl⟩ := ih inner
      exact ⟨rfl, rfl⟩
  | andFalse _ ih =>
    cases evaluates' with
    | andFalse fails =>
      obtain ⟨-, rfl⟩ := ih fails
      exact ⟨rfl, rfl⟩
    | andTrue holds _ => cases (ih holds).1
  | andTrue _ _ leftIh rightIh =>
    cases evaluates' with
    | andFalse fails => cases (leftIh fails).1
    | andTrue holds rest =>
      obtain ⟨-, rfl⟩ := leftIh holds
      obtain ⟨rfl, rfl⟩ := rightIh rest
      exact ⟨rfl, rfl⟩
  | orTrue _ ih =>
    cases evaluates' with
    | orTrue holds =>
      obtain ⟨-, rfl⟩ := ih holds
      exact ⟨rfl, rfl⟩
    | orFalse fails _ => cases (ih fails).1
  | orFalse _ _ leftIh rightIh =>
    cases evaluates' with
    | orTrue holds => cases (leftIh holds).1
    | orFalse fails rest =>
      obtain ⟨-, rfl⟩ := leftIh fails
      obtain ⟨rfl, rfl⟩ := rightIh rest
      exact ⟨rfl, rfl⟩

/-- A decision is the expression inside its parentheses. -/
theorem sect_ofNode (n : SyntaxNode) : (ofNode n).sect = n.unparenthesized.sect := by
  fun_induction SyntaxNode.unparenthesized n with
  | case1 role sect inner ih => rw [ofNode, ih]
  | case2 n plain =>
    fun_cases ofNode n with
    | case1 role sect inner => exact absurd rfl (plain role sect inner)
    | case2 | case3 | case4 | case5 => rfl

theorem leafCount_pos (expr : DecisionExpr) : 1 ≤ expr.leafCount := by
  induction expr with
  | leaf node => exact Nat.le_refl 1
  | not sect operand ih => exact ih
  | join op sect left right leftIh _ => exact leftIh.trans (Nat.le_add_right _ _)

theorem preorder_eq_cons (expr : DecisionExpr) : expr.preorder = expr :: expr.preorder.tail := by
  cases expr <;> rfl

theorem filterMap_preorder (policy : DecisionPolicy) (expr : DecisionExpr) :
    expr.preorder.filterMap (probe? policy false) = treeFindings policy false expr := by
  induction expr with
  | leaf node => rfl
  | not sect operand ih => exact ih
  | join op sect left right leftIh rightIh =>
    rw [preorder, treeFindings, ← leftIh, ← rightIh, ← List.filterMap_append, List.filterMap_cons, probe?]
    cases policy <;> rfl

/-- Only for the root it matters that it is the root. -/
theorem treeFindings_eq (policy : DecisionPolicy) (isRoot : Bool) (expr : DecisionExpr) :
    treeFindings policy isRoot expr =
      (expr.probe? policy isRoot).toList ++ expr.preorder.tail.filterMap (probe? policy false) := by
  cases expr with
  | leaf node => rfl
  | not sect operand => exact (filterMap_preorder policy operand).symm
  | join op sect left right =>
    rw [treeFindings, preorder, List.tail_cons, List.filterMap_append, filterMap_preorder, filterMap_preorder, probe?]
    split <;> rfl

theorem decisionFindings_eq (policy : DecisionPolicy) (expr : DecisionExpr) :
    decisionFindings policy expr [] = expr.registrations policy := by
  have inner : (expr.preorder.tail.zipIdx 1).filterMap (fun (e, index) => e.probe? policy (index == 0)) =
      expr.preorder.tail.filterMap (probe? policy false) := by
    conv_rhs => rw [← List.zipIdx_map_fst 1 expr.preorder.tail, List.filterMap_map]
    refine List.filterMap_congr ?_
    rintro ⟨e, index⟩ member
    have later : 1 ≤ index := List.le_snd_of_mem_zipIdx member
    have nonzero : (index == 0) = false := beq_false_of_ne (Nat.ne_of_gt later)
    simp only [nonzero, Function.comp_apply]
  rw [decisionFindings, List.append_nil, treeFindings_eq, registrations, preorder_eq_cons expr, List.zipIdx_cons,
    List.filterMap_cons, List.tail_cons, inner]
  simp only [beq_self_eq_true]
  cases expr.probe? policy true <;> rfl

end DecisionExpr

namespace ConditionTree

/-- The ids of a tree, that of an operator before those of its operands. -/
def ids : ConditionTree → List MarkerId
  | condition id => [id]
  | not operand => operand.ids
  | join _ left right marker => marker.toList ++ (left.ids ++ right.ids)

variable {markers : List Marker} {tree : ConditionTree} {expr : DecisionExpr}

theorem Depicts.conditions (depicts : tree.Depicts markers expr) :
    List.Forall₂ (fun id node => Marker.evaluation id node.sect .condition ∈ markers) tree.conditions
      expr.leaves := by
  induction depicts with
  | condition entered => exact .cons entered .nil
  | not _ ih =>
    rw [conditions_not]
    exact ih
  | join _ _ _ first second =>
    rw [conditions_join]
    exact List.rel_append first second

theorem Depicts.length_conditions (depicts : tree.Depicts markers expr) :
    tree.conditions.length = expr.leafCount := by
  rw [depicts.conditions.length_eq, expr.length_leaves]

theorem Depicts.evaluates_run (depicts : tree.Depicts markers expr) {truth : Nat → Bool} {value : MarkerId → Bool}
    {index : MarkerId → Nat} {first : Nat}
    (agrees : ∀ (i : Nat) id, tree.conditions[i]? = some id → index id = first + i ∧ value id = truth (first + i)) :
    expr.Evaluates truth first (tree.run value).outcome ((tree.run value).evaluated.map index) := by
  induction depicts generalizing first with
  | @condition node id entered =>
    obtain ⟨place, truth⟩ := agrees 0 id rfl
    simp only [run, List.map_cons, List.map_nil, place, truth]
    exact .leaf
  | not _ ih =>
    rw [conditions_not] at agrees
    exact .not (ih agrees)
  | @join op sect l r left right marker inLeft inRight _ leftIh rightIh =>
    rw [conditions_join] at agrees
    have first' : l.Evaluates truth first (left.run value).outcome ((left.run value).evaluated.map index) :=
      leftIh fun i id atI => agrees i id (by rw [List.getElem?_append_left (List.getElem?_eq_some_iff.mp atI).1, atI])
    have second : r.Evaluates truth (first + l.leafCount) (right.run value).outcome
        ((right.run value).evaluated.map index) := by
      refine rightIh fun i id atI => ?_
      have later := agrees (l.leafCount + i) id
      rw [← inLeft.length_conditions, List.getElem?_append_right (Nat.le_add_right _ _),
        Nat.add_sub_cancel_left] at later
      rw [← inLeft.length_conditions, Nat.add_assoc]
      exact later atI
    cases op with
    | and =>
      cases outcome : (left.run value).outcome with
      | true =>
        rw [outcome] at first'
        simp only [run, outcome, Bool.not_true, Bool.false_eq_true, if_false, List.map_append]
        exact .andTrue first' second
      | false =>
        rw [outcome] at first'
        simp only [run, outcome, Bool.not_false, if_true]
        exact .andFalse first'
    | or =>
      cases outcome : (left.run value).outcome with
      | true =>
        rw [outcome] at first'
        simp only [run, outcome, if_true]
        exact .orTrue first'
      | false =>
        rw [outcome] at first'
        simp only [run, outcome, Bool.false_eq_true, if_false, List.map_append]
        exact .orFalse first' second

/-- A tree whose conditions can be told apart is evaluated like the expression that it depicts. -/
theorem Depicts.evaluates_iff (depicts : tree.Depicts markers expr) (nodup : tree.conditions.Nodup)
    (truth : Nat → Bool) (outcome : Bool) (order : List Nat) : expr.Evaluates truth 0 outcome order ↔
      (tree.run fun id => truth (tree.conditions.idxOf id)).outcome = outcome ∧
        (tree.run fun id => truth (tree.conditions.idxOf id)).evaluated.map tree.conditions.idxOf = order := by
  have evaluates : expr.Evaluates truth 0 (tree.run fun id => truth (tree.conditions.idxOf id)).outcome
      ((tree.run fun id => truth (tree.conditions.idxOf id)).evaluated.map tree.conditions.idxOf) := by
    refine depicts.evaluates_run fun i id atI => ?_
    obtain ⟨inside, rfl⟩ := List.getElem?_eq_some_iff.mp atI
    rw [nodup.idxOf_getElem, Nat.zero_add]
    exact ⟨rfl, rfl⟩
  constructor
  · exact evaluates.unique
  · rintro ⟨rfl, rfl⟩
    exact evaluates

end ConditionTree

theorem Finder.ids_treeOf (policy : DecisionPolicy) (isRoot : Bool) (count : Nat) (expr : DecisionExpr) :
    (treeOf policy isRoot count expr).ids = MarkerId.after count (treeFindings policy isRoot expr).length := by
  induction expr generalizing isRoot count with
  | leaf node => rfl
  | not sect operand ih => exact ih false count
  | join op sect left right leftIh rightIh =>
    rw [treeOf, ConditionTree.ids, leftIh, rightIh, length_treeFindings_join, MarkerId.after_add, MarkerId.after_add]
    split <;> rfl

/-- What is there once a decision is entered. -/
structure Decomposition.IsEntered (policy : DecisionPolicy) (root : SyntaxNode) (before : Ledger)
    (made : Decomposition) (after : Ledger) : Prop where
  markers : after.markers = before.markers ++
    numbered before.markers.length ((DecisionExpr.ofNode root).registrations policy)
  /-- The decision has the first of the new markers. -/
  marker : after.markers[before.markers.length]? =
    some (.evaluation made.record.marker root.unparenthesized.sect .decision)
  /-- The numbers are given in the order of the tree. -/
  ids : (made.record.marker :: made.record.tree.ids).map UInt32.toNat =
    List.range' (before.markers.length + 1) ((DecisionExpr.ofNode root).registrations policy).length
  tree : made.record.tree.Depicts after.markers (DecisionExpr.ofNode root)
  leaves : made.leaves = (DecisionExpr.ofNode root).leaves
  /-- Each condition has its marker on the node that is returned for it. -/
  conditions : List.Forall₂ (fun id node => Marker.evaluation id node.sect .condition ∈ after.markers)
    made.record.tree.conditions made.leaves
  count : made.record.tree.conditions.length = (DecisionExpr.ofNode root).leafCount ∧
    1 ≤ (DecisionExpr.ofNode root).leafCount
  decisions : after.decisions = before.decisions ++ [made.record]
  /-- Whatever the conditions are, the tree has the outcome of the expression and looks at its conditions in the
  same order. -/
  evaluation : ∀ (truth : Nat → Bool) outcome order, (DecisionExpr.ofNode root).Evaluates truth 0 outcome order ↔
    (made.record.tree.run fun id => truth (made.record.tree.conditions.idxOf id)).outcome = outcome ∧
      (made.record.tree.run fun id => truth (made.record.tree.conditions.idxOf id)).evaluated.map
        made.record.tree.conditions.idxOf = order

namespace Registration

variable {policy : DecisionPolicy} {root : SyntaxNode} {before after : Ledger} {made : Decomposition}

theorem isEntered_of_ok (agrees : before.Agrees)
    (room : before.markers.length + ((DecisionExpr.ofNode root).registrations policy).length < 2 ^ 32)
    (entered : (decision policy (.ofNode root)).run before = (.ok made, after)) :
    made.IsEntered policy root before after := by
  obtain ⟨rfl, grows⟩ := yields_decision policy (.ofNode root) _ before agrees rfl made after entered
  have markers := grows.markers
  have length := length_decisionFindings policy (.ofNode root)
  rw [DecisionExpr.decisionFindings_eq] at markers length
  have depicts : (decisionOf policy before.markers.length (.ofNode root)).Depicts after.markers (.ofNode root) := by
    refine depicts_decisionOf ?_
    rw [DecisionExpr.decisionFindings_eq, markers]
    exact List.subset_append_right _ _
  have tree := depicts.tree
  have ids : (decisionOf policy before.markers.length (.ofNode root)).marker ::
      (decisionOf policy before.markers.length (.ofNode root)).tree.ids =
        MarkerId.after before.markers.length ((DecisionExpr.ofNode root).registrations policy).length := by
    rw [length, MarkerId.after_add, decisionOf, ids_treeOf]
    rfl
  refine ⟨markers, ?_, ?_, tree, rfl, tree.conditions, ⟨tree.length_conditions, DecisionExpr.leafCount_pos _⟩,
    grows.decisions, ?_⟩
  · rw [markers, List.getElem?_append_right (Nat.le_refl _), Nat.sub_self, ← DecisionExpr.sect_ofNode]
    rfl
  · rw [ids, MarkerId.map_toNat_after room]
  · rw [← DecisionExpr.decisionFindings_eq] at room
    exact tree.evaluates_iff ((increasing_decisionOf room).1.imp UInt32.ne_of_lt)

/-- A decision that is entered means what its expression means; one that is refused leaves a part of its markers and
no record. -/
theorem decision_ofNode (policy : DecisionPolicy) (root : SyntaxNode) (before : Ledger) (agrees : before.Agrees)
    (room : before.markers.length + ((DecisionExpr.ofNode root).registrations policy).length < 2 ^ 32) :
    (∀ made after, (decision policy (.ofNode root)).run before = (.ok made, after) →
        made.IsEntered policy root before after) ∧
      ∀ duplicate after, (decision policy (.ofNode root)).run before = (.error duplicate, after) →
        after.decisions = before.decisions ∧
          ∃ entered, entered <+: (DecisionExpr.ofNode root).registrations policy ∧
            entered ≠ (DecisionExpr.ofNode root).registrations policy ∧
            after.markers = before.markers ++ numbered before.markers.length entered := by
  refine ⟨fun made after => isEntered_of_ok agrees room, ?_⟩
  intro duplicate after refused
  obtain ⟨entered, part, short, grows⟩ :=
    stops_decision policy (.ofNode root) _ before agrees rfl duplicate after refused
  rw [DecisionExpr.decisionFindings_eq] at part short
  refine ⟨grows.decisions.trans (List.append_nil _), entered, part, ?_, grows.markers⟩
  rintro rfl
  exact Nat.lt_irrefl _ short

/-- A decision in parentheses, `(a && !(b || c))`, after a checkpoint; and the same where `b` is a condition
already. -/
theorem decision_ofNode_parenthesized :
    let leaf (role : Role) (column : UInt32) : SyntaxNode :=
      .node (.expression .other) role ⟨⟨1, column⟩, ⟨1, column + 1⟩⟩ []
    let root : SyntaxNode := .node (.expression .parenthesized) .condition ⟨⟨1, 1⟩, ⟨1, 17⟩⟩ [
      .node (.expression .and) .none ⟨⟨1, 2⟩, ⟨1, 16⟩⟩ [leaf .left 2,
        .node (.expression .not) .right ⟨⟨1, 7⟩, ⟨1, 16⟩⟩ [
          .node (.expression .parenthesized) .operand ⟨⟨1, 8⟩, ⟨1, 16⟩⟩ [
            .node (.expression .or) .none ⟨⟨1, 9⟩, ⟨1, 15⟩⟩ [leaf .left 9, leaf .right 14]]]]]
    let before : Ledger := ((checkpoint ⟨1, 1⟩ none).run { sourceHash := "" }).2
    let taken : Ledger := ((evaluation ⟨⟨1, 9⟩, ⟨1, 10⟩⟩ .condition).run { sourceHash := "" }).2
    (∃ after, Decomposition.IsEntered .allNodes root before
        ⟨⟨2, .join .and (.condition 3) (.not (.join .or (.condition 5) (.condition 6) (some 4))) none⟩,
          [leaf .left 2, leaf .left 9, leaf .right 14]⟩ after) ∧
      ∃ duplicate after, (decision .allNodes (.ofNode root)).run taken = (.error duplicate, after) ∧
        after.decisions = [] := by
  intro leaf root before taken
  have agrees : before.Agrees := keepsAgreement_checkpoint _ _ _ (Ledger.agrees_empty "")
  have agrees' : taken.Agrees := keepsAgreement_evaluation _ _ _ (Ledger.agrees_empty "")
  refine ⟨⟨_, (decision_ofNode .allNodes root before agrees (by decide)).1 _ _ rfl⟩, _, _, rfl, ?_⟩
  exact ((decision_ofNode .allNodes root taken agrees' (by decide)).2 _ _ rfl).1

end Registration

end SourceCoverage
