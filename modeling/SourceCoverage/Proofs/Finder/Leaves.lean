import SourceCoverage.Proofs.Finder.Growth

namespace SourceCoverage

open Finder

namespace Ledger

variable {ledger ledger' : Ledger} {findings : List Finding} {spot : Spot} {id : MarkerId}

/-- What is looked up stays where it is. -/
theorem Extends.number?_eq (grown : ledger.Extends findings ledger') (agrees : ledger.Agrees)
    (found : ledger.number? spot = some id) : ledger'.number? spot = some id := by
  obtain ⟨entered, records, grows, -, -⟩ := grown
  obtain ⟨m, member, same⟩ := (agrees.lookup spot id).mp found
  refine (grows.agrees.lookup spot id).mpr ⟨m, ?_, same⟩
  rw [grows.markers]
  exact List.mem_append_left _ member

/-- What has been entered is found. -/
theorem Grows.exists_number? {decisions : List Decision} (grows : ledger.Grows findings decisions ledger')
    {f : Finding} (member : f ∈ findings) : ∃ id, ledger'.number? f.spot = some id := by
  rw [← List.zipIdx_map_fst ledger.markers.length findings] at member
  obtain ⟨⟨f, before⟩, found, rfl⟩ := List.mem_map.mp member
  refine ⟨_, (grows.agrees.lookup _ _).mpr ⟨f.marker (before + 1).toUInt32, ?_, f.takes.spot _, f.takes.id _⟩⟩
  rw [grows.markers]
  exact List.mem_append_right _ (List.mem_map.mpr ⟨(f, before), found, rfl⟩)

/-- The conditions at these nodes are entered. -/
def HasConditions (ledger : Ledger) (leaves : List SyntaxNode) : Prop :=
  ∀ leaf ∈ leaves, ∃ id, ledger.number? (.evaluation leaf.sect .condition) = some id

end Ledger

namespace Finder

variable {policy : DecisionPolicy}

theorem mem_treeFindings_of_leaf (isRoot : Bool) {expr : DecisionExpr} {leaf : SyntaxNode}
    (member : leaf ∈ expr.leaves) : .evaluation leaf.sect .condition ∈ treeFindings policy isRoot expr := by
  induction expr generalizing isRoot with
  | leaf node =>
    rw [List.mem_singleton.mp member]
    exact List.mem_singleton.mpr rfl
  | not sect operand ih => exact ih false member
  | join op sect left right leftIh rightIh =>
    rw [treeFindings]
    refine List.mem_append_right _ (List.mem_append.mpr ?_)
    exact (List.mem_append.mp member).imp (leftIh false) (rightIh false)

theorem hasConditions_of_decision {expr : DecisionExpr} {ledger ledger' : Ledger} (agrees : ledger.Agrees)
    {made : Decomposition} (run : (Registration.decision policy expr).run ledger = (.ok made, ledger')) :
    made.leaves = expr.leaves ∧ ledger'.HasConditions expr.leaves := by
  obtain ⟨rfl, grows⟩ := yields_decision policy expr _ ledger agrees rfl made ledger' run
  refine ⟨rfl, ?_⟩
  intro leaf member
  refine grows.exists_number? (f := .evaluation leaf.sect .condition) ?_
  exact List.mem_cons_of_mem _ (List.mem_append_left _ (mem_treeFindings_of_leaf true member))

/-- A decision is refused if its only condition is one already, whether or not it is a decision already. -/
theorem refused_leaf (policy : DecisionPolicy) {ledger : Ledger} {n : SyntaxNode}
    (entered : ledger.HasConditions [n]) :
    ∃ duplicate ledger', (Registration.decision policy (.leaf n)).run ledger = (.error duplicate, ledger') := by
  obtain ⟨id, taken⟩ := entered n (List.mem_singleton.mpr rfl)
  have decision := Registration.asks_evaluation n.sect .decision
  have condition := Registration.asks_evaluation n.sect .condition
  unfold Registration.decision
  cases found : ledger.number? (.evaluation n.sect .decision) with
  | some existing => exact ⟨_, _, Registration.run_bind_of_error (decision.taken ledger existing found)⟩
  | none =>
    have still : (ledger.enter (.evaluation n.sect .decision) fun id => .evaluation id n.sect .decision).number?
        (.evaluation n.sect .condition) = some id := by
      rw [Ledger.number?_enter_of_ne _ _ (by simp), taken]
    rw [DecisionExpr.sect, Registration.run_bind_of_ok (decision.free ledger found)]
    exact ⟨_, _, Registration.run_bind_of_error (Registration.run_bind_of_error (condition.taken _ id still))⟩

/-- An operator that lacks an operand is met again as its own condition, and is refused. -/
theorem LacksOperand.runAll_insideDecision {n : SyntaxNode} (lacks : LacksOperand n) {walk : Walk}
    (entered : walk.ledger.HasConditions [n]) :
    runAll policy (visits n).insideDecision walk = runAll policy [.visit ((visits n).asNode true .nested)] walk := by
  obtain ⟨duplicate, ledger', refused⟩ := refused_leaf policy entered
  rw [lacks.insideDecision_eq, asNode_logical lacks.isLogical, Children.asDecision, lacks.ofNode_eq]
  simp only [runAll, Step.run, refused]

theorem runAll_append (steps more : List Step) (walk : Walk) :
    runAll policy (steps ++ more) walk = runAll policy more (runAll policy steps walk) := by
  induction steps generalizing walk with
  | nil => rfl
  | cons step steps ih => rw [List.cons_append, runAll, runAll, ih]

/-- The visit of each of the nodes, as parts of running code. -/
def visitEach (leaves : List SyntaxNode) : List Step :=
  leaves.map fun leaf => .visit ((visits leaf).asNode true .nested)

/-- To go on inside a decision is to visit its conditions. -/
theorem runAll_insideDecision (n : SyntaxNode) {walk : Walk} (agrees : walk.ledger.Agrees)
    (entered : walk.ledger.HasConditions (DecisionExpr.ofNode n).leaves) :
    runAll policy (visits n).insideDecision walk = runAll policy (visitEach (DecisionExpr.ofNode n).leaves) walk := by
  induction n using SyntaxNode.induction generalizing walk with
  | step n ih =>
    cases shape n with
    | leaf leaf =>
      rw [leaf.insideDecision_eq, leaf.ofNode_eq]
      rfl
    | parenthesized role sect inner =>
      rw [DecisionExpr.ofNode] at entered ⊢
      rw [insideDecision_parenthesized]
      exact ih inner (List.mem_singleton.mpr rfl) agrees entered
    | @not _ c kind operand =>
      rw [ofNode_not kind operand] at entered ⊢
      rw [insideDecision_not kind operand]
      exact ih c (List.mem_of_find?_eq_some operand) agrees entered
    | @join _ l r kind left right =>
      obtain ⟨op, expr⟩ := ofNode_join kind left right
      rw [expr, DecisionExpr.leaves] at entered ⊢
      obtain ⟨inLeft, inRight⟩ := List.forall_mem_append.mp entered
      rw [insideDecision_join kind left right, runAll_append, visitEach, List.map_append, runAll_append,
        ih l (List.mem_of_find?_eq_some left) agrees inLeft]
      -- what is found in the left operand leaves the conditions of the right one entered
      refine ih r (List.mem_of_find?_eq_some right) (agrees_steps _ agrees) ?_
      intro leaf member
      obtain ⟨id, found⟩ := inRight leaf member
      exact ⟨id, (extends_steps policy _ walk agrees).number?_eq agrees found⟩
    | lacking lacks =>
      rw [lacks.ofNode_eq] at entered ⊢
      exact lacks.runAll_insideDecision entered

/-- Once a decision is entered, the walk goes on at the nodes that were returned with it. -/
theorem run_asDecision {n : SyntaxNode} {walk : Walk} (agrees : walk.ledger.Agrees) {made : Decomposition}
    {ledger' : Ledger} (run : (Registration.decision policy (.ofNode n)).run walk.ledger = (.ok made, ledger')) :
    runAll policy (Children.asDecision n (visits n)) walk =
      runAll policy (visitEach made.leaves) { walk with ledger := ledger', decisions := walk.decisions + 1 } := by
  obtain ⟨leaves, entered⟩ := hasConditions_of_decision agrees run
  have agrees' := Registration.keepsAgreement_decision policy (.ofNode n) walk.ledger agrees
  rw [run] at agrees'
  rw [leaves, Children.asDecision, runAll, runAll, Step.run, run]
  exact runAll_insideDecision n agrees' entered

end Finder

end SourceCoverage
