import SourceCoverage.Proofs.Finder.Divided
import SourceCoverage.Proofs.Finder.Entered

namespace SourceCoverage

namespace Finder

variable {policy : DecisionPolicy}

/-- The checkpoint that is due at a node, by the situation in which it is met. -/
def due? : Situation → SyntaxNode → Option Finding
  | .running placement, .node (.statement kind) _ sect _ =>
    if isInert kind || !isProbed kind then none
    else match placement with
      | .blockItem => some (.checkpoint sect false)
      | .body => some (.checkpoint sect true)
      | .nested => none
  | _, _ => none

/-- The checkpoints that are due at a node and below it. -/
def dueBelow (above : Ancestors) (n : SyntaxNode) : List Finding :=
  (n.occurrences above).filterMap fun o => due? o.ancestors.situation o.node

theorem dueBelow_eq_gather (above : Ancestors) (n : SyntaxNode) :
    dueBelow above n = gather (fun o => (due? o.ancestors.situation o.node).toList) above n :=
  List.filterMap_eq_flatMap_toList _ _

theorem dueBelow_eq (above : Ancestors) (n : SyntaxNode) :
    dueBelow above n = (due? above.situation n).toList ++
      n.children.zipIdx.flatMap fun (c, i) => dueBelow (⟨n, i⟩ :: above) c := by
  simp only [dueBelow_eq_gather]
  exact gather_eq _ above n

/-- Nothing is due where the walk does not come. -/
theorem idle_due? : Idle fun o => (due? o.ancestors.situation o.node).toList := by
  intro o skipped
  show (due? o.ancestors.situation o.node).toList = []
  rw [skipped]
  rfl

theorem due?_expression {n : SyntaxNode} {kind : ExpressionKind} (same : n.kind = .expression kind)
    (situation : Situation) :
    due? situation n = none := by
  obtain ⟨_, role, sect, children⟩ := n
  obtain rfl : _ = NodeKind.expression kind := same
  cases situation <;> rfl

section Operands

variable {n c l r : SyntaxNode} {above : Ancestors} {placement : Placement} {i j : Nat}

theorem dueBelow_not (kind : n.kind = .expression .not) (operand : n.FirstAt .operand c i)
    (running : above.situation = .running placement) : dueBelow above n = dueBelow (⟨n, i⟩ :: above) c := by
  rw [dueBelow_eq_gather, dueBelow_eq_gather, gather_not idle_due? kind operand running]
  simp only [due?_expression kind]
  rfl

theorem dueBelow_join (kind : n.kind = .expression .and ∨ n.kind = .expression .or) (left : n.FirstAt .left l i)
    (right : n.FirstAt .right r j) (running : above.situation = .running placement) :
    (dueBelow (⟨n, i⟩ :: above) l ++ dueBelow (⟨n, j⟩ :: above) r).Perm (dueBelow above n) := by
  obtain ⟨expression, -, same⟩ := isLogical_join kind
  have due := gather_join idle_due? kind left right running
  simp only [due?_expression same, ← dueBelow_eq_gather] at due
  exact due

end Operands

/-- What is found when a node is visited in a situation. -/
def visitFindings (policy : DecisionPolicy) : Situation → SyntaxNode → List Finding
  | .skipped, _ => []
  | .resting, n => nodeFindings policy false .nested n
  | .running placement, n => nodeFindings policy true placement n

/-- What is found in a node that is met in a situation: it is visited or entered as a decision. -/
inductive Met (policy : DecisionPolicy) (n : SyntaxNode) : Situation → List Finding → Prop
  | visit (situation : Situation) : Met policy n situation (visitFindings policy situation n)
  | root : Met policy n (.running .nested) (rootFindings policy n)

/-- Findings that consist of what is due at a node and of what is found in its children. -/
def Divides (policy : DecisionPolicy) (n : SyntaxNode) (situation : Situation) (findings : List Finding) : Prop :=
  ∃ found : SyntaxNode → List Finding, findings = (due? situation n).toList ++ n.children.flatMap found ∧
    ∀ i c, n.children[i]? = some c → Met policy c ((⟨n, i⟩ : Ancestor).behind situation) (found c)

theorem visitFindings_eq (situation : Situation) (n : SyntaxNode) :
    visitFindings policy situation n = findingsAll policy (visitSteps situation n) := by
  cases situation <;> rfl

theorem findingsAll_ownSteps (situation : Situation) (n : SyntaxNode) :
    findingsAll policy (ownSteps situation n) = (due? situation n).toList := by
  obtain ⟨kind, role, sect, children⟩ := n
  cases situation with
  | skipped | resting => rfl
  | running placement =>
    cases kind with
    | statement statement =>
      simp only [ownSteps, checkpointSteps, due?]
      cases isInert statement <;> cases isProbed statement <;> cases placement <;> rfl
    | _ => rfl

theorem Meets.met {n : SyntaxNode} {decided : Bool} {situation : Situation} {steps : List Step}
    (meets : Meets n decided situation steps) : Met policy n situation (findingsAll policy steps) := by
  cases meets with
  | nothing empty =>
    rw [← empty, ← visitFindings_eq]
    exact .visit situation
  | visit =>
    rw [findingsAll_eq_flatMap, List.flatMap_singleton, Step.findings, ← visitFindings_eq]
    exact .visit situation
  | root =>
    rw [findingsAll_asDecision]
    exact .root

/-- Outside of operators, what is found is what is due and what is found in the children. -/
theorem divides_visit {n : SyntaxNode} {situation : Situation}
    (plain : situation.isRunning = true → n.kind.isLogical = false) :
    Divides policy n situation (visitFindings policy situation n) := by
  obtain ⟨part, steps, meets⟩ := divided_visit plain
  refine ⟨fun c => findingsAll policy (part c), ?_, fun i c child => (meets i c child).met⟩
  rw [visitFindings_eq, steps, findingsAll_append, findingsAll_ownSteps, findingsAll_flatMap]

/-- However a node is met, if what is found in it has free places, its checkpoints are those that are due. -/
structure Covers (policy : DecisionPolicy) (n : SyntaxNode) : Prop where
  visit : ∀ above : Ancestors, Distinct (visitFindings policy above.situation n) →
    ((visitFindings policy above.situation n).filter Finding.isCheckpoint).Perm (dueBelow above n)
  inside : ∀ (above : Ancestors) (isRoot : Bool), above.situation = .running .nested →
    Distinct (treeFindings policy isRoot (DecisionExpr.ofNode n) ++ insideFindings policy n) →
    ((insideFindings policy n).filter Finding.isCheckpoint).Perm (dueBelow above n)

section Covers

variable {n : SyntaxNode} {above : Ancestors} {situation : Situation} {findings : List Finding}

theorem filter_treeFindings (isRoot : Bool) (expr : DecisionExpr) :
    (treeFindings policy isRoot expr).filter Finding.isCheckpoint = [] := by
  rw [← List.length_eq_zero_iff, ← List.countP_eq_length_filter]
  exact countP_treeFindings policy isRoot expr

theorem filter_rootFindings (n : SyntaxNode) : (rootFindings policy n).filter Finding.isCheckpoint =
    (insideFindings policy n).filter Finding.isCheckpoint := by
  rw [rootFindings, decisionFindings, List.filter_cons_of_neg (by simp [Finding.isCheckpoint]), List.filter_append,
    filter_treeFindings, List.nil_append]

theorem Covers.root (covers : Covers policy n) (nested : above.situation = .running .nested)
    (distinct : Distinct (rootFindings policy n)) :
    ((rootFindings policy n).filter Finding.isCheckpoint).Perm (dueBelow above n) := by
  rw [filter_rootFindings]
  exact covers.inside above true nested (List.pairwise_cons.mp distinct).2

theorem Met.perm (met : Met policy n situation findings) (covers : Covers policy n)
    (same : above.situation = situation) (distinct : Distinct findings) :
    (findings.filter Finding.isCheckpoint).Perm (dueBelow above n) := by
  cases met with
  | visit =>
    subst same
    exact covers.visit above distinct
  | root => exact covers.root same distinct

theorem filter_due? (situation : Situation) (n : SyntaxNode) :
    (due? situation n).toList.filter Finding.isCheckpoint = (due? situation n).toList := by
  unfold due?
  split
  · split
    · rfl
    · split <;> rfl
  · rfl

/-- The checkpoints of a node are its own and those of its children. -/
theorem Divides.perm (divides : Divides policy n above.situation findings)
    (covers : ∀ c ∈ n.children, Covers policy c) (distinct : Distinct findings) :
    (findings.filter Finding.isCheckpoint).Perm (dueBelow above n) := by
  obtain ⟨found, rfl, met⟩ := divides
  rw [dueBelow_eq, List.filter_append, filter_due?, List.filter_flatMap]
  refine .append_left _ ?_
  have indexed : n.children.flatMap (fun c => (found c).filter Finding.isCheckpoint) =
      n.children.zipIdx.flatMap fun (c, _) => (found c).filter Finding.isCheckpoint := by
    conv_lhs => rw [← List.zipIdx_map_fst 0 n.children, List.flatMap_map]
  rw [indexed]
  refine .flatMap_left _ ?_
  rintro ⟨c, i⟩ member
  have child : n.children[i]? = some c := List.mem_zipIdx_iff_getElem?.mp member
  have inChildren := List.mem_of_getElem? child
  have part : (found c).Sublist ((due? above.situation n).toList ++ n.children.flatMap found) := by
    rw [List.flatMap_def]
    exact (List.sublist_flatten_of_mem (List.mem_map_of_mem inChildren)).trans (List.sublist_append_right _ _)
  exact (met i c child).perm (covers c inChildren) rfl (distinct.sublist part)

end Covers

section Shapes

variable {n : SyntaxNode} {above : Ancestors} {placement : Placement} {isRoot : Bool}

/-- The checkpoints inside a decision, by the shape of its root. -/
theorem perm_inside (children : ∀ c ∈ n.children, Covers policy c) (running : above.situation = .running placement)
    (nested : n.kind.isLogical = false → placement = .nested)
    (distinct : Distinct (treeFindings policy isRoot (DecisionExpr.ofNode n) ++ insideFindings policy n)) :
    ((insideFindings policy n).filter Finding.isCheckpoint).Perm (dueBelow above n) := by
  cases shape n with
  | leaf leaf =>
    rw [leaf.insideFindings_eq] at distinct ⊢
    have visit : nodeFindings policy true .nested n = visitFindings policy above.situation n := by
      rw [running, nested leaf.plain]
      rfl
    rw [visit] at distinct ⊢
    exact (divides_visit fun _ => leaf.plain).perm children (distinct.sublist (List.sublist_append_right _ _))
  | parenthesized role sect inner =>
    rw [insideFindings_parenthesized] at distinct ⊢
    have due : dueBelow above (.node (.expression .parenthesized) role sect [inner]) =
        dueBelow (⟨.node (.expression .parenthesized) role sect [inner], 0⟩ :: above) inner := by
      rw [dueBelow_eq, running]
      exact List.append_nil _
    rw [DecisionExpr.ofNode] at distinct
    rw [due]
    exact (children inner (List.mem_singleton.mpr rfl)).inside _ isRoot (situation_parenthesized running) distinct
  | not kind operand =>
    rw [ofNode_not kind operand, treeFindings, insideFindings_not kind operand] at distinct
    obtain ⟨i, first⟩ := SyntaxNode.exists_firstAt operand
    rw [insideFindings_not kind operand, dueBelow_not kind first running]
    exact (children _ first.mem).inside _ false (situation_not kind first running) distinct
  | @join _ l r kind left right =>
    obtain ⟨op, expr⟩ := ofNode_join kind left right
    rw [expr, treeFindings, insideFindings_join kind left right] at distinct
    obtain ⟨distinctLeft, distinctRight⟩ := distinct.operands
    obtain ⟨i, first⟩ := SyntaxNode.exists_firstAt left
    obtain ⟨j, second⟩ := SyntaxNode.exists_firstAt right
    rw [insideFindings_join kind left right, List.filter_append]
    refine List.Perm.trans (.append ?_ ?_) (dueBelow_join kind first second running)
    · exact (children l first.mem).inside _ false (situation_join kind (Or.inl rfl) first running) distinctLeft
    · exact (children r second.mem).inside _ false (situation_join kind (Or.inr rfl) second running) distinctRight
  | lacking lacks =>
    -- the condition that the operator is itself would be entered twice
    rw [lacks.ofNode_eq, lacks.insideFindings_eq] at distinct
    simp [Distinct, treeFindings, Finding.Clashes] at distinct

/-- A walk misses no checkpoint that is due and sets no other. -/
theorem covers (policy : DecisionPolicy) (n : SyntaxNode) : Covers policy n := by
  induction n using SyntaxNode.induction with
  | step n ih =>
    refine ⟨?_, fun above isRoot running => perm_inside ih running fun _ => rfl⟩
    intro above distinct
    by_cases plain : above.situation.isRunning = true → n.kind.isLogical = false
    · exact (divides_visit plain).perm ih distinct
    · obtain ⟨running, logical⟩ := Classical.not_imp.mp plain
      obtain ⟨placement, running⟩ := Situation.exists_running running
      have root : visitFindings policy above.situation n = rootFindings policy n := by
        rw [running, visitFindings, nodeFindings_logical (Bool.not_eq_false _ ▸ logical)]
      rw [root] at distinct ⊢
      rw [filter_rootFindings]
      exact perm_inside ih running (fun plain => absurd plain logical) (List.pairwise_cons.mp distinct).2

end Shapes

/-- Where a finding is and what it braces. -/
def Finding.place : Finding → Location × Option Position
  | checkpoint sect braced => (.point sect.start, if braced then some sect.stop else none)
  | evaluation sect _ => (.extent sect, none)

theorem due?_running (placement : Placement) (o : Occurrence) :
    (due? (.running placement) o.node).map Finding.place =
      if o.isSimple then
        match placement with
        | .blockItem => some (.point o.node.sect.start, none)
        | .body => some (.point o.node.sect.start, some o.node.sect.stop)
        | .nested => none
      else none := by
  obtain ⟨⟨kind, role, sect, children⟩, above⟩ := o
  cases kind with
  | statement kind =>
    cases kind with
    | declaration initialized persistent => cases initialized <;> cases persistent <;> cases placement <;> rfl
    | _ => cases placement <;> rfl
  | _ => rfl

/-- What is due in the situation of a node is what its ancestors say. -/
theorem place_due? (o : Occurrence) : (due? o.ancestors.situation o.node).map Finding.place = o.checkpoint? := by
  rw [Ancestors.situation_eq, Occurrence.checkpoint?]
  by_cases reached : o.ancestors.Reached
  · rw [if_pos reached, due?_running, Ancestors.placement]
    simp only [reached, true_and]
    split
    · cases o.ancestors.isBlock <;> cases o.ancestors.isControlled <;> rfl
    · rfl
  · simp only [reached, false_and, if_false]
    split <;> rfl

theorem checkpoints_numbered (count : Nat) (findings : List Finding) :
    ((numbered count findings).filter Marker.isCheckpoint).map (fun m => (m.location, m.scopeEnd)) =
      (findings.filter Finding.isCheckpoint).map Finding.place := by
  induction findings generalizing count with
  | nil => rfl
  | cons f findings ih =>
    have first : numbered count (f :: findings) = f.marker (count + 1).toUInt32 :: numbered (count + 1) findings :=
      rfl
    rw [first]
    cases f with
    | checkpoint sect braced => exact congrArg _ (ih (count + 1))
    | evaluation sect kind => exact ih (count + 1)

end Finder

open Finder

/-- The checkpoints that a walk sets if it fails nowhere are those of the simple statements that it reaches, one for
each: in front of a statement in a block, and around one that stands alone as what a control statement controls. -/
theorem checkpoints_walk (policy : DecisionPolicy) (root : SyntaxNode) (hash : String)
    (success : (walk policy root { sourceHash := hash }).failure = none) :
    (((walk policy root { sourceHash := hash }).ledger.markers.filter Marker.isCheckpoint).map fun m =>
        (m.location, m.scopeEnd)).Perm ((root.occurrences []).filterMap Occurrence.checkpoint?) ∧
      (walk policy root { sourceHash := hash }).checkpoints =
        ((root.occurrences []).filterMap Occurrence.checkpoint?).length := by
  have goesOn := goesOn_walk success
  have due : ((nodeFindings policy false .nested root).filter Finding.isCheckpoint).Perm (dueBelow [] root) :=
    (covers policy root).visit [] (distinct_of_walk success)
  have places : (dueBelow [] root).map Finding.place = (root.occurrences []).filterMap Occurrence.checkpoint? := by
    rw [dueBelow, List.map_filterMap]
    simp only [place_due?]
  constructor
  · rw [goesOn.grows.markers, ← places]
    show (((numbered 0 (nodeFindings policy false .nested root)).filter _).map _).Perm _
    rw [checkpoints_numbered]
    exact due.map Finding.place
  · rw [goesOn.checkpoints, ← places, List.length_map, ← due.length_eq, List.countP_eq_length_filter]
    exact Nat.zero_add _

/-- A labelled choice between a call and a block of two declarations. Its condition runs a lambda; so does a
declaration, but that one outlives the block. -/
def labelledChoice : SyntaxNode :=
  .node .unit .none ⟨⟨1, 1⟩, ⟨1, 52⟩⟩ [.node (.function false) .none ⟨⟨1, 1⟩, ⟨1, 52⟩⟩ [
    .node .compound .body ⟨⟨1, 2⟩, ⟨1, 52⟩⟩ [.node .container .none ⟨⟨1, 3⟩, ⟨1, 51⟩⟩ [
      .node (.control .branch) .none ⟨⟨1, 5⟩, ⟨1, 51⟩⟩ [
        .node (.expression .parenthesized) .condition ⟨⟨1, 7⟩, ⟨1, 20⟩⟩ [
          .node (.expression .and) .none ⟨⟨1, 8⟩, ⟨1, 19⟩⟩ [
            .node (.expression .other) .left ⟨⟨1, 8⟩, ⟨1, 9⟩⟩ [],
            .node (.expression .other) .right ⟨⟨1, 11⟩, ⟨1, 19⟩⟩ [
              .node (.function false) .none ⟨⟨1, 11⟩, ⟨1, 17⟩⟩ [.node .compound .body ⟨⟨1, 13⟩, ⟨1, 17⟩⟩ [
                .node (.statement .expression) .none ⟨⟨1, 14⟩, ⟨1, 16⟩⟩ []]]]]],
        .node (.statement .expression) .consequence ⟨⟨1, 20⟩, ⟨1, 22⟩⟩ [],
        .node .container .alternative ⟨⟨1, 22⟩, ⟨1, 51⟩⟩ [.node .compound .none ⟨⟨1, 26⟩, ⟨1, 51⟩⟩ [
          .node (.statement (.declaration true false)) .none ⟨⟨1, 27⟩, ⟨1, 33⟩⟩ [],
          .node (.statement (.declaration true true)) .none ⟨⟨1, 33⟩, ⟨1, 50⟩⟩ [
            .node (.function false) .none ⟨⟨1, 42⟩, ⟨1, 49⟩⟩ [.node .compound .body ⟨⟨1, 45⟩, ⟨1, 49⟩⟩ [
              .node (.statement .expression) .none ⟨⟨1, 46⟩, ⟨1, 48⟩⟩ []]]]]]]]]]]

theorem checkpoints_labelledChoice :
    (walk .allNodes labelledChoice { sourceHash := "" }).failure = none ∧
      (((walk .allNodes labelledChoice { sourceHash := "" }).ledger.markers.filter Marker.isCheckpoint).map fun m =>
        (m.location, m.scopeEnd)).Perm
          [(.point ⟨1, 14⟩, none), (.point ⟨1, 20⟩, some ⟨1, 22⟩), (.point ⟨1, 27⟩, none)] ∧
      (walk .allNodes labelledChoice { sourceHash := "" }).checkpoints = 3 := by
  have success : (walk .allNodes labelledChoice { sourceHash := "" }).failure = none := by decide
  have places : (labelledChoice.occurrences []).filterMap Occurrence.checkpoint? =
      [(.point ⟨1, 14⟩, none), (.point ⟨1, 20⟩, some ⟨1, 22⟩), (.point ⟨1, 27⟩, none)] := by decide
  have checkpoints := checkpoints_walk .allNodes labelledChoice "" success
  rw [places] at checkpoints
  exact ⟨success, checkpoints⟩

end SourceCoverage
