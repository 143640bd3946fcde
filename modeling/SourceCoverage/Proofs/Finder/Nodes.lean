import SourceCoverage.Proofs.Finder.Findings

namespace SourceCoverage

namespace NodeKind

def isLogical : NodeKind → Bool
  | .expression .and | .expression .or | .expression .not => true
  | _ => false

/-- Blocks and control statements, which have a text of their own before their first child. -/
def isBlock : NodeKind → Bool
  | .compound | .control _ => true
  | _ => false

end NodeKind

namespace Finder

variable {policy : DecisionPolicy}

/-- What is found when a node is visited. -/
def nodeFindings (policy : DecisionPolicy) (executable : Bool) (placement : Placement) (n : SyntaxNode) :
    List Finding := findingsAll policy ((visits n).asNode executable placement)

/-- What is found inside the conditions of a decision. -/
def insideFindings (policy : DecisionPolicy) (n : SyntaxNode) : List Finding :=
  findingsAll policy (visits n).insideDecision

/-- What is found when a node is entered as a decision. -/
def rootFindings (policy : DecisionPolicy) (n : SyntaxNode) : List Finding :=
  decisionFindings policy (DecisionExpr.ofNode n) (insideFindings policy n)

theorem visitsEach_eq_map (children : List SyntaxNode) :
    visitsEach children = children.map fun c => (c, visits c) := by
  induction children with
  | nil => rfl
  | cons c children ih => rw [visitsEach, ih, List.map_cons]

theorem visits_eq (n : SyntaxNode) :
    visits n = Visits.ofNode n (n.children.map fun c => (c, visits c)) := by
  obtain ⟨kind, role, sect, children⟩ := n
  rw [visits, visitsEach_eq_map]
  rfl

theorem findingsAll_each (children : List SyntaxNode) (executable : Bool) (placement : Placement) :
    findingsAll policy (Children.each (children.map fun c => (c, visits c)) executable placement) =
      children.flatMap (nodeFindings policy executable placement) := by
  simp only [findingsAll_eq_flatMap, Children.each, List.map_map, List.flatMap_map]
  refine List.flatMap_congr ?_
  intro c _
  simp only [Function.comp_apply, Step.findings, nodeFindings]

theorem findingsAll_ofFunction (children : List SyntaxNode) :
    findingsAll policy (Children.ofFunction (children.map fun c => (c, visits c))) =
      (children.filter fun c => c.role == .initializer || c.role == .body).flatMap
        (nodeFindings policy true .nested) := by
  rw [Children.ofFunction, List.filter_map]
  exact findingsAll_each _ true .nested

/-- What is found in a child of a control statement. -/
def controlFindings (policy : DecisionPolicy) (kind : ControlKind) (c : SyntaxNode) : List Finding :=
  if c.role == .condition && kind.isBoolean then
    if c.kind == .constantContext then [] else rootFindings policy c
  else if c.role == .body || c.role == .consequence || c.role == .alternative then nodeFindings policy true .body c
  else nodeFindings policy true .nested c

/-- What is found in a child of a choice. -/
def conditionalFindings (policy : DecisionPolicy) (elvis : Bool) (c : SyntaxNode) : List Finding :=
  if c.role == .condition && !elvis then rootFindings policy c else nodeFindings policy true .nested c

theorem findingsAll_flatMap (steps : SyntaxNode → List Step) (children : List SyntaxNode) :
    findingsAll policy (children.flatMap steps) = children.flatMap fun c => findingsAll policy (steps c) := by
  simp only [findingsAll_eq_flatMap, List.flatMap_assoc]

theorem findingsAll_asDecision (c : SyntaxNode) :
    findingsAll policy (Children.asDecision c (visits c)) = rootFindings policy c := by
  simp [findingsAll_eq_flatMap, Children.asDecision, Step.findings, rootFindings, insideFindings]

theorem findingsAll_visit (executable : Bool) (placement : Placement) (c : SyntaxNode) :
    findingsAll policy [.visit ((visits c).asNode executable placement)] =
      nodeFindings policy executable placement c := by
  simp [findingsAll_eq_flatMap, Step.findings, nodeFindings]

theorem findingsAll_ofControl (children : List SyntaxNode) (kind : ControlKind) :
    findingsAll policy (Children.ofControl (children.map fun c => (c, visits c)) kind) =
      children.flatMap (controlFindings policy kind) := by
  rw [Children.ofControl, List.flatMap_map, findingsAll_flatMap]
  refine List.flatMap_congr ?_
  intro c _
  dsimp only [controlFindings]
  rw [← findingsAll_asDecision, ← findingsAll_visit, ← findingsAll_visit]
  split_ifs <;> rfl

theorem findingsAll_ofConditional (children : List SyntaxNode) (elvis : Bool) :
    findingsAll policy (Children.ofConditional (children.map fun c => (c, visits c)) elvis) =
      children.flatMap (conditionalFindings policy elvis) := by
  rw [Children.ofConditional, List.flatMap_map, findingsAll_flatMap]
  refine List.flatMap_congr ?_
  intro c _
  dsimp only [conditionalFindings]
  rw [← findingsAll_asDecision, ← findingsAll_visit]
  split_ifs <;> rfl

theorem ofFirst_eq (role : Role) (children : List SyntaxNode) :
    DecisionExpr.ofFirst role children = (children.find? (·.role == role)).map DecisionExpr.ofNode := by
  induction children with
  | nil => rfl
  | cons c children ih =>
    rw [DecisionExpr.ofFirst, List.find?_cons]
    split
    · rename_i plays
      simp [plays]
    · rename_i other
      simp [other, ih]

theorem insideFirst?_eq (role : Role) (children : List SyntaxNode) :
    Children.insideFirst? (children.map fun c => (c, visits c)) role =
      (children.find? (·.role == role)).map fun c => (visits c).insideDecision := by
  rw [Children.insideFirst?, List.find?_map]
  simp [Function.comp_def]

theorem insideDecision_parenthesized (role : Role) (sect : Section) (inner : SyntaxNode) :
    (visits (.node (.expression .parenthesized) role sect [inner])).insideDecision =
      (visits inner).insideDecision := by
  rw [visits_eq]
  rfl

theorem insideFindings_parenthesized (role : Role) (sect : Section) (inner : SyntaxNode) :
    insideFindings policy (.node (.expression .parenthesized) role sect [inner]) = insideFindings policy inner := by
  rw [insideFindings, insideDecision_parenthesized]
  rfl

theorem rootFindings_parenthesized (role : Role) (sect : Section) (inner : SyntaxNode) :
    rootFindings policy (.node (.expression .parenthesized) role sect [inner]) = rootFindings policy inner := by
  rw [rootFindings, insideFindings_parenthesized, DecisionExpr.ofNode]
  rfl

theorem ofNode_not {n c : SyntaxNode} (kind : n.kind = .expression .not) (operand : n.child? .operand = some c) :
    DecisionExpr.ofNode n = .not n.sect (DecisionExpr.ofNode c) := by
  obtain ⟨_, role, sect, children⟩ := n
  obtain rfl : _ = NodeKind.expression .not := kind
  have found : children.find? (·.role == .operand) = some c := operand
  rw [DecisionExpr.ofNode, ofFirst_eq, found]
  rfl

theorem insideDecision_not {n c : SyntaxNode} (kind : n.kind = .expression .not)
    (operand : n.child? .operand = some c) : (visits n).insideDecision = (visits c).insideDecision := by
  obtain ⟨_, role, sect, children⟩ := n
  obtain rfl : _ = NodeKind.expression .not := kind
  have found : children.find? (·.role == .operand) = some c := operand
  rw [visits_eq]
  simp only [Visits.ofNode, Visits.inside, insideDecisionAt, SyntaxNode.kind, SyntaxNode.children, insideFirst?_eq,
    found]
  rfl

theorem insideFindings_not {n c : SyntaxNode} (kind : n.kind = .expression .not)
    (operand : n.child? .operand = some c) : insideFindings policy n = insideFindings policy c := by
  rw [insideFindings, insideDecision_not kind operand]
  rfl

theorem rootFindings_not {n c : SyntaxNode} (kind : n.kind = .expression .not)
    (operand : n.child? .operand = some c) :
    rootFindings policy n = .evaluation n.sect .decision ::
      (treeFindings policy false (DecisionExpr.ofNode c) ++ insideFindings policy c) := by
  rw [rootFindings, ofNode_not kind operand, insideFindings_not kind operand]
  rfl

theorem ofNode_join {n l r : SyntaxNode} (kind : n.kind = .expression .and ∨ n.kind = .expression .or)
    (left : n.child? .left = some l) (right : n.child? .right = some r) :
    ∃ op, DecisionExpr.ofNode n = .join op n.sect (DecisionExpr.ofNode l) (DecisionExpr.ofNode r) := by
  obtain ⟨kind', role, sect, children⟩ := n
  have atLeft : children.find? (·.role == .left) = some l := left
  have atRight : children.find? (·.role == .right) = some r := right
  rcases kind with kind | kind
  · obtain rfl : kind' = .expression .and := kind
    exact ⟨.and, by simp [DecisionExpr.ofNode, ofFirst_eq, atLeft, atRight, NodeKind.connective?,
      ExpressionKind.connective?, SyntaxNode.sect]⟩
  · obtain rfl : kind' = .expression .or := kind
    exact ⟨.or, by simp [DecisionExpr.ofNode, ofFirst_eq, atLeft, atRight, NodeKind.connective?,
      ExpressionKind.connective?, SyntaxNode.sect]⟩

theorem insideDecision_join {n l r : SyntaxNode} (kind : n.kind = .expression .and ∨ n.kind = .expression .or)
    (left : n.child? .left = some l) (right : n.child? .right = some r) :
    (visits n).insideDecision = (visits l).insideDecision ++ (visits r).insideDecision := by
  obtain ⟨kind', role, sect, children⟩ := n
  have atLeft : children.find? (·.role == .left) = some l := left
  have atRight : children.find? (·.role == .right) = some r := right
  rw [visits_eq]
  rcases kind with kind | kind
  all_goals
    obtain rfl : kind' = _ := kind
    simp [Visits.ofNode, Visits.inside, insideDecisionAt, SyntaxNode.kind, SyntaxNode.children, insideFirst?_eq,
      atLeft, atRight]

theorem insideFindings_join {n l r : SyntaxNode} (kind : n.kind = .expression .and ∨ n.kind = .expression .or)
    (left : n.child? .left = some l) (right : n.child? .right = some r) :
    insideFindings policy n = insideFindings policy l ++ insideFindings policy r := by
  rw [insideFindings, insideDecision_join kind left right, findingsAll_append]
  rfl

theorem rootFindings_join {n l r : SyntaxNode}
    (kind : n.kind = .expression .and ∨ n.kind = .expression .or) (left : n.child? .left = some l)
    (right : n.child? .right = some r) :
    rootFindings policy n = .evaluation n.sect .decision ::
      ((treeFindings policy false (DecisionExpr.ofNode l) ++ treeFindings policy false (DecisionExpr.ofNode r)) ++
        (insideFindings policy l ++ insideFindings policy r)) := by
  obtain ⟨op, expr⟩ := ofNode_join kind left right
  rw [rootFindings, expr, insideFindings_join kind left right]
  rfl

/-- An operator without one of its operands. -/
def LacksOperand (n : SyntaxNode) : Prop :=
  (n.kind = .expression .not ∧ n.child? .operand = none) ∨
    ((n.kind = .expression .and ∨ n.kind = .expression .or) ∧ (n.child? .left = none ∨ n.child? .right = none))

theorem LacksOperand.ofNode_eq {n : SyntaxNode} (lacks : LacksOperand n) : DecisionExpr.ofNode n = .leaf n := by
  obtain ⟨kind, role, sect, children⟩ := n
  simp only [LacksOperand, SyntaxNode.kind, SyntaxNode.child?, SyntaxNode.children] at lacks
  rcases lacks with ⟨rfl, operand⟩ | ⟨rfl | rfl, operand | operand⟩
  all_goals simp [DecisionExpr.ofNode, ofFirst_eq, operand, NodeKind.connective?, ExpressionKind.connective?]

/-- Such an operator is its own condition, and is entered as a decision once more. -/
theorem LacksOperand.insideDecision_eq {n : SyntaxNode} (lacks : LacksOperand n) :
    (visits n).insideDecision = [.visit [.decision (.leaf n) []]] := by
  obtain ⟨kind, role, sect, children⟩ := n
  simp only [LacksOperand, SyntaxNode.kind, SyntaxNode.child?, SyntaxNode.children] at lacks
  rw [visits_eq]
  rcases lacks with ⟨rfl, operand⟩ | ⟨rfl | rfl, operand | operand⟩
  all_goals simp [Visits.ofNode, Visits.inside, insideDecisionAt, SyntaxNode.kind, SyntaxNode.children,
    insideFirst?_eq, operand]

theorem LacksOperand.insideFindings_eq {n : SyntaxNode} (lacks : LacksOperand n) :
    insideFindings policy n = [.evaluation n.sect .decision, .evaluation n.sect .condition] := by
  rw [insideFindings, lacks.insideDecision_eq]
  rfl

theorem LacksOperand.isLogical {n : SyntaxNode} (lacks : LacksOperand n) : n.kind.isLogical = true := by
  rcases lacks with ⟨kind, -⟩ | ⟨kind | kind, -⟩ <;> rw [kind] <;> rfl

/-- A node that is neither an operator nor a single node in parentheses. -/
structure IsLeaf (n : SyntaxNode) : Prop where
  plain : n.kind.isLogical = false
  open' : ¬ (n.kind = .expression .parenthesized ∧ n.children.length = 1)

/-- What a node can be as the root of a decision. -/
inductive Shape : SyntaxNode → Prop
  | leaf {n : SyntaxNode} : IsLeaf n → Shape n
  | parenthesized (role : Role) (sect : Section) (inner : SyntaxNode) :
      Shape (.node (.expression .parenthesized) role sect [inner])
  | not {n c : SyntaxNode} : n.kind = .expression .not → n.child? .operand = some c → Shape n
  | join {n l r : SyntaxNode} : n.kind = .expression .and ∨ n.kind = .expression .or → n.child? .left = some l →
      n.child? .right = some r → Shape n
  | lacking {n : SyntaxNode} : LacksOperand n → Shape n

theorem shape_join {n : SyntaxNode} (kind : n.kind = .expression .and ∨ n.kind = .expression .or) : Shape n := by
  cases left : n.child? .left with
  | none => exact .lacking (Or.inr ⟨kind, Or.inl left⟩)
  | some l =>
    cases right : n.child? .right with
    | none => exact .lacking (Or.inr ⟨kind, Or.inr right⟩)
    | some r => exact .join kind left right

theorem shape (n : SyntaxNode) : Shape n := by
  cases logical : n.kind.isLogical with
  | true =>
    unfold NodeKind.isLogical at logical
    split at logical
    · rename_i kind
      exact shape_join (Or.inl kind)
    · rename_i kind
      exact shape_join (Or.inr kind)
    · rename_i kind
      cases operand : n.child? .operand with
      | none => exact .lacking (Or.inl ⟨kind, operand⟩)
      | some c => exact .not kind operand
    · cases logical
  | false =>
    by_cases single : n.kind = .expression .parenthesized ∧ n.children.length = 1
    · obtain ⟨kind, role, sect, children⟩ := n
      obtain ⟨rfl, length⟩ := single
      obtain ⟨inner, rfl⟩ := List.length_eq_one_iff.mp length
      exact .parenthesized role sect inner
    · exact .leaf ⟨logical, single⟩

theorem IsLeaf.ofNode_eq {n : SyntaxNode} (leaf : IsLeaf n) : DecisionExpr.ofNode n = .leaf n := by
  obtain ⟨plain, single⟩ := leaf
  rw [DecisionExpr.ofNode.eq_def]
  split
  · exact absurd ⟨rfl, rfl⟩ single
  · cases plain
  · rename_i kind role sect children _ _
    have connective : kind.connective? = none := by
      cases kind with
      | expression e => cases e <;> first | rfl | cases plain
      | _ => rfl
    rw [connective]

theorem IsLeaf.insideDecision_eq {n : SyntaxNode} (leaf : IsLeaf n) :
    (visits n).insideDecision = [.visit ((visits n).asNode true .nested)] := by
  obtain ⟨plain, single⟩ := leaf
  obtain ⟨kind, role, sect, children⟩ := n
  rw [visits_eq]
  simp only [Visits.ofNode, Visits.inside, SyntaxNode.kind, SyntaxNode.children, if_true] at *
  split
  · rename_i one
    have length := congrArg List.length one
    rw [List.length_map] at length
    exact absurd ⟨rfl, length⟩ single
  · unfold insideDecisionAt
    simp only [SyntaxNode.kind]
    split
    · cases plain
    · cases plain
    · cases plain
    · rfl

theorem IsLeaf.insideFindings_eq {n : SyntaxNode} (leaf : IsLeaf n) :
    insideFindings policy n = nodeFindings policy true .nested n := by
  rw [insideFindings, leaf.insideDecision_eq, findingsAll_visit]

theorem rootFindings_leaf {n : SyntaxNode} (leaf : IsLeaf n) :
    rootFindings policy n = .evaluation n.sect .decision :: .evaluation n.sect .condition ::
      nodeFindings policy true .nested n := by
  rw [rootFindings, leaf.insideFindings_eq, leaf.ofNode_eq]
  rfl

/-- An operator is visited as a decision. -/
theorem asNode_logical {n : SyntaxNode} (logical : n.kind.isLogical = true) (placement : Placement) :
    (visits n).asNode true placement = Children.asDecision n (visits n) := by
  obtain ⟨kind, role, sect, children⟩ := n
  rw [visits_eq]
  cases kind with
  | expression e => cases e <;> first | rfl | cases logical
  | _ => cases logical

theorem nodeFindings_logical {n : SyntaxNode} (logical : n.kind.isLogical = true) (placement : Placement) :
    nodeFindings policy true placement n = rootFindings policy n := by
  rw [nodeFindings, asNode_logical logical, findingsAll_asDecision]

/-- What a visit of a node does with a child: nothing, enter it as a decision, or visit it. Where the node is
nested so is the child, except in blocks and control statements. -/
inductive ChildVisit (policy : DecisionPolicy) (n : SyntaxNode) (placement : Placement) (c : SyntaxNode) :
    List Finding → Prop
  | none : ChildVisit policy n placement c []
  | root : c.role = .condition → ChildVisit policy n placement c (rootFindings policy c)
  | node (executable : Bool) (inner : Placement) :
      (placement = .nested → inner = .nested ∨ n.kind.isBlock = true) →
      ChildVisit policy n placement c (nodeFindings policy executable inner c)

/-- The findings of a node that is no operator: what is found in its children and, if it is a statement that
stands where a probe fits, its own checkpoint. -/
inductive Visited (policy : DecisionPolicy) (n : SyntaxNode) (placement : Placement) : List Finding → Prop
  | children {children : List SyntaxNode} {found : SyntaxNode → List Finding} :
      children.Sublist n.children → (∀ c ∈ children, ChildVisit policy n placement c (found c)) →
      Visited policy n placement (children.flatMap found)
  | statement (braced : Bool) {found : SyntaxNode → List Finding} : placement ≠ .nested →
      (∀ c ∈ n.children, ChildVisit policy n .nested c (found c)) →
      Visited policy n placement (.checkpoint n.sect braced :: n.children.flatMap found)

theorem visited_nil {n : SyntaxNode} {placement : Placement} : Visited policy n placement [] := by
  have nothing : ∀ c ∈ ([] : List SyntaxNode), ChildVisit policy n placement c [] := by simp
  exact .children (List.nil_sublist _) nothing

theorem visited_each {n : SyntaxNode} {placement : Placement} (executable : Bool) (inner : Placement)
    (nested : placement = .nested → inner = .nested ∨ n.kind.isBlock = true) :
    Visited policy n placement (findingsAll policy
      (Children.each (n.children.map fun c => (c, visits c)) executable inner)) := by
  rw [findingsAll_each]
  exact .children (List.Sublist.refl _) fun c _ => .node executable inner nested

theorem visited_function {n : SyntaxNode} {placement : Placement} (constant : Bool) :
    Visited policy n placement (findingsAll policy
      (if constant then [] else Children.ofFunction (n.children.map fun c => (c, visits c)))) := by
  cases constant with
  | true => exact visited_nil
  | false =>
    simp only [Bool.false_eq_true, if_false, findingsAll_ofFunction]
    exact .children List.filter_sublist fun c _ => .node true .nested fun _ => Or.inl rfl

theorem visited_statement {n : SyntaxNode} (kind : StatementKind) (placement : Placement) :
    Visited policy n placement (findingsAll policy (checkpointSteps kind placement n.sect ++
      Children.each (n.children.map fun c => (c, visits c)) true .nested)) := by
  rw [findingsAll_append, findingsAll_each]
  have each (placement : Placement) (c : SyntaxNode) (_ : c ∈ n.children) :
      ChildVisit policy n placement c (nodeFindings policy true .nested c) := .node true .nested fun _ => Or.inl rfl
  unfold checkpointSteps
  split
  · cases placement with
    | blockItem => exact .statement false (by simp) (each .nested)
    | body => exact .statement true (by simp) (each .nested)
    | nested => exact .children (List.Sublist.refl _) (each .nested)
  · exact .children (List.Sublist.refl _) (each placement)

theorem visited_nodeFindings {n : SyntaxNode} {executable : Bool}
    (plain : executable = true → n.kind.isLogical = false) (placement : Placement) :
    Visited policy n placement (nodeFindings policy executable placement n) := by
  rw [nodeFindings, visits_eq]
  simp only [Visits.ofNode]
  cases executable with
  | false =>
    simp only [Bool.false_eq_true, if_false, Visits.resting]
    split
    · exact visited_nil
    · exact visited_function _
    · exact visited_each false .nested fun _ => Or.inl rfl
  | true =>
    have plain := plain rfl
    simp only [if_true, Visits.running]
    split
    · exact visited_nil
    · exact visited_function _
    · rename_i kind
      exact visited_each true .blockItem fun _ => Or.inr (by rw [kind]; rfl)
    · exact visited_each true placement fun nested => Or.inl nested
    · split
      · exact visited_nil
      · exact visited_statement _ placement
    · rename_i kind
      rw [findingsAll_ofControl]
      refine .children (List.Sublist.refl _) ?_
      intro c _
      unfold controlFindings
      split
      · rename_i condition
        split
        · exact .none
        · exact .root (beq_iff_eq.mp (Bool.and_eq_true_iff.mp condition).1)
      · split
        · exact .node true .body fun _ => Or.inr (by rw [kind]; rfl)
        · exact .node true .nested fun _ => Or.inl rfl
    · rename_i kind
      rw [kind] at plain
      cases plain
    · rename_i kind
      rw [kind] at plain
      cases plain
    · rename_i kind
      rw [kind] at plain
      cases plain
    · rw [findingsAll_ofConditional]
      refine .children (List.Sublist.refl _) ?_
      intro c _
      unfold conditionalFindings
      split
      · rename_i condition
        exact .root (beq_iff_eq.mp (Bool.and_eq_true_iff.mp condition).1)
      · exact .node true .nested fun _ => Or.inl rfl
    all_goals exact visited_each true .nested fun _ => Or.inl rfl

/-- If no two findings of a tree clash, a walk over it fails nowhere and enters them all. -/
theorem records_of_distinct {root : SyntaxNode} (distinct : Distinct (nodeFindings policy false .nested root))
    (hash : String) :
    (walk policy root { sourceHash := hash }).failure = none ∧
      Records (walk policy root { sourceHash := hash }).ledger.markers (nodeFindings policy false .nested root) := by
  have fresh : Records (Walk.mk { sourceHash := hash } 0 0 none).ledger.markers [] := .nil
  obtain ⟨going, -, records⟩ :=
    run_step (.visit ((visits root).asNode false .nested)) rfl (Ledger.agrees_empty hash) fresh distinct
  exact ⟨going, records⟩

end Finder

end SourceCoverage
