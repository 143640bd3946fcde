import Mathlib.Data.List.Nodup
import SourceCoverage.Proofs.Finder.Blocks
import SourceCoverage.Proofs.Finder.Divided

namespace SourceCoverage

open Finder

/-- A node without the parentheses around it, where it occurs. -/
def SyntaxNode.bare (above : Ancestors) : SyntaxNode → Occurrence
  | .node (.expression .parenthesized) role sect [inner] =>
    inner.bare (⟨.node (.expression .parenthesized) role sect [inner], 0⟩ :: above)
  | n => ⟨n, above⟩

mutual

/-- The operators that divide a decision, from its root to its conditions. -/
def SyntaxNode.operators (above : Ancestors) : SyntaxNode → List Occurrence
  | .node (.expression .parenthesized) role sect [inner] =>
    inner.operators (⟨.node (.expression .parenthesized) role sect [inner], 0⟩ :: above)
  | .node (.expression .not) role sect children =>
    match operatorsFirst (.node (.expression .not) role sect children) above .operand 0 children with
    | some inner => ⟨.node (.expression .not) role sect children, above⟩ :: inner
    | none => []
  | .node kind role sect children =>
    match kind.connective?, operatorsFirst (.node kind role sect children) above .left 0 children,
      operatorsFirst (.node kind role sect children) above .right 0 children with
    | some _, some left, some right => ⟨.node kind role sect children, above⟩ :: (left ++ right)
    | _, _, _ => []

/-- The operators in the first child from an index on that plays a role. -/
def operatorsFirst (parent : SyntaxNode) (above : Ancestors) (role : Role) :
    Nat → List SyntaxNode → Option (List Occurrence)
  | _, [] => none
  | index, c :: rest =>
    if c.role == role then some (c.operators (⟨parent, index⟩ :: above)) else operatorsFirst parent above role
      (index + 1) rest

end

/-- The sections of the operators of an expression, from its root on. -/
def DecisionExpr.operatorSects : DecisionExpr → List Section
  | leaf _ => []
  | not sect operand => sect :: operand.operatorSects
  | join _ sect left right => sect :: (left.operatorSects ++ right.operatorSects)

namespace Occurrence

/-- An operator in running code. -/
def isOperator (o : Occurrence) : Bool := decide o.ancestors.Reached && o.node.kind.isLogical

/-- The children by which a node in running code decides. -/
def conditions (o : Occurrence) : List Occurrence :=
  if o.ancestors.Reached then
    (o.node.children.zipIdx.filter fun (c, _) => o.node.decidesBy c).map fun (c, i) => ⟨c, ⟨o.node, i⟩ :: o.ancestors⟩
  else []

def unparenthesized (o : Occurrence) : Occurrence := o.node.bare o.ancestors

def operators (o : Occurrence) : List Occurrence := o.node.operators o.ancestors

end Occurrence

section Occurrences

variable {n c l r : SyntaxNode} {above : Ancestors} {o : Occurrence} {i j : Nat}

theorem SyntaxNode.suffix_of_mem_occurrences (member : o ∈ n.occurrences above) : above <:+ o.ancestors := by
  induction n using SyntaxNode.induction generalizing above with
  | step n ih =>
    rw [SyntaxNode.occurrences_eq] at member
    rcases List.mem_cons.mp member with rfl | below
    · exact List.suffix_refl _
    · obtain ⟨⟨c, i⟩, child, inside⟩ := List.mem_flatMap.mp below
      have inChildren := List.mem_of_getElem? (List.mem_zipIdx_iff_getElem?.mp child)
      exact (List.suffix_cons _ _).trans (ih c inChildren inside)

theorem SyntaxNode.nodup_occurrences (n : SyntaxNode) (above : Ancestors) : (n.occurrences above).Nodup := by
  induction n using SyntaxNode.induction generalizing above with
  | step n ih =>
    rw [SyntaxNode.occurrences_eq, List.nodup_cons, List.nodup_flatMap]
    refine ⟨?_, ?_, ?_⟩
    · intro again
      obtain ⟨⟨c, i⟩, -, inside⟩ := List.mem_flatMap.mp again
      exact Nat.not_succ_le_self _ (SyntaxNode.suffix_of_mem_occurrences inside).length_le
    · rintro ⟨c, i⟩ child
      exact ih c (List.mem_of_getElem? (List.mem_zipIdx_iff_getElem?.mp child)) _
    · have indices : n.children.zipIdx.Pairwise fun x y => x.2 < y.2 := by
        rw [← List.pairwise_map, List.zipIdx_map_snd]
        exact List.pairwise_lt_range'
      refine indices.imp ?_
      rintro ⟨c, i⟩ ⟨d, j⟩ less o first second
      -- a node has one list of ancestors, and it tells through which child the node is reached
      have suffix := SyntaxNode.suffix_of_mem_occurrences first
      have suffix' := SyntaxNode.suffix_of_mem_occurrences second
      have same := (List.suffix_of_suffix_length_le suffix suffix' (by simp)).eq_of_length (by simp)
      simp only [List.cons.injEq, Ancestor.mk.injEq] at same
      exact absurd same.1.2 (Nat.ne_of_lt less)

end Occurrences

namespace SyntaxNode

variable {n c l r : SyntaxNode} {above : Ancestors} {i j : Nat}

theorem node_bare (n : SyntaxNode) (above : Ancestors) : (n.bare above).node = n.unparenthesized := by
  fun_induction SyntaxNode.bare above n with
  | case1 above role sect inner ih => rw [ih, SyntaxNode.unparenthesized]
  | case2 above n single =>
    rw [SyntaxNode.unparenthesized.eq_def]
    split
    · exact absurd rfl (single _ _ _)
    · rfl

theorem ofNode_unparenthesized (n : SyntaxNode) : DecisionExpr.ofNode n.unparenthesized = DecisionExpr.ofNode n := by
  fun_induction SyntaxNode.unparenthesized n with
  | case1 role sect inner ih => rw [ih, DecisionExpr.ofNode]
  | case2 => rfl

theorem operators_bare (n : SyntaxNode) (above : Ancestors) : (n.bare above).operators = n.operators above := by
  fun_induction SyntaxNode.bare above n with
  | case1 above role sect inner ih => rw [ih, SyntaxNode.operators]
  | case2 => rfl

theorem bare_of_logical (logical : n.kind.isLogical = true) : n.bare above = ⟨n, above⟩ := by
  fun_cases SyntaxNode.bare above n with
  | case1 => cases logical
  | case2 => rfl

theorem operators_leaf (leaf : IsLeaf n) : n.operators above = [] := by
  obtain ⟨plain, single⟩ := leaf
  rw [SyntaxNode.operators.eq_def]
  split
  · exact absurd ⟨rfl, rfl⟩ single
  · cases plain
  · rename_i kind role sect children _ _
    have connective : kind.connective? = none := by
      cases kind with
      | expression e => cases e <;> first | rfl | cases plain
      | _ => rfl
    rw [connective]

theorem operatorsFirst_eq_none (parent : SyntaxNode) (above : Ancestors) {role : Role} {children : List SyntaxNode}
    (none : children.find? (·.role == role) = none) (count : Nat) :
    operatorsFirst parent above role count children = .none := by
  induction children generalizing count with
  | nil => rfl
  | cons d children ih =>
    rw [List.find?_cons] at none
    split at none
    · cases none
    · rename_i other
      rw [operatorsFirst, if_neg (by simp [other]), ih none]

theorem operators_lacking (lacks : LacksOperand n) : n.operators above = [] := by
  obtain ⟨kind, role, sect, children⟩ := n
  simp only [LacksOperand, SyntaxNode.kind, SyntaxNode.child?, SyntaxNode.children] at lacks
  rcases lacks with ⟨rfl, operand⟩ | ⟨rfl | rfl, operand | operand⟩
  all_goals simp [SyntaxNode.operators, operatorsFirst_eq_none _ _ operand]

theorem operatorsFirst_eq (parent : SyntaxNode) (above : Ancestors) {role : Role} {children : List SyntaxNode}
    (child : children[i]? = some c) (index : children.findIdx? (·.role == role) = some i) (count : Nat) :
    operatorsFirst parent above role count children = some (c.operators (⟨parent, count + i⟩ :: above)) := by
  induction children generalizing i count with
  | nil => cases child
  | cons d children ih =>
    rw [operatorsFirst]
    rw [List.findIdx?_cons] at index
    split at index
    · rename_i plays
      obtain rfl := Option.some.inj index
      obtain rfl : d = c := by simpa using child
      rw [if_pos plays]
      rfl
    · rename_i other
      obtain ⟨k, later, rfl⟩ := Option.map_eq_some_iff.mp index
      rw [if_neg other, ih (by simpa using child) later, Nat.add_assoc, Nat.add_comm 1]

theorem operators_not (kind : n.kind = .expression .not) (operand : n.FirstAt .operand c i) :
    n.operators above = ⟨n, above⟩ :: c.operators (⟨n, i⟩ :: above) := by
  obtain ⟨_, role, sect, children⟩ := n
  obtain rfl : _ = NodeKind.expression .not := kind
  have first := operatorsFirst_eq (.node (.expression .not) role sect children) above operand.child operand.index 0
  rw [Nat.zero_add] at first
  simp only [SyntaxNode.children] at first
  rw [SyntaxNode.operators, first]

theorem operators_join (kind : n.kind = .expression .and ∨ n.kind = .expression .or) (left : n.FirstAt .left l i)
    (right : n.FirstAt .right r j) :
    n.operators above = ⟨n, above⟩ :: (l.operators (⟨n, i⟩ :: above) ++ r.operators (⟨n, j⟩ :: above)) := by
  obtain ⟨kind', role, sect, children⟩ := n
  have first := operatorsFirst_eq (.node kind' role sect children) above left.child left.index 0
  have second := operatorsFirst_eq (.node kind' role sect children) above right.child right.index 0
  rw [Nat.zero_add] at first second
  rcases kind with kind | kind
  all_goals
    obtain rfl : kind' = _ := kind
    simp only [SyntaxNode.children] at first second
    simp [SyntaxNode.operators, first, second, NodeKind.connective?, ExpressionKind.connective?]

/-- The operators that divide a decision are those of its expression. -/
theorem sects_operators (n : SyntaxNode) (above : Ancestors) :
    (n.operators above).map (fun o => o.node.sect) = (DecisionExpr.ofNode n).operatorSects := by
  induction n using SyntaxNode.induction generalizing above with
  | step n ih =>
    cases shape n with
    | leaf leaf => rw [operators_leaf leaf, leaf.ofNode_eq]; rfl
    | parenthesized role sect inner =>
      rw [SyntaxNode.operators, DecisionExpr.ofNode]
      exact ih inner (List.mem_singleton.mpr rfl) _
    | not kind operand =>
      obtain ⟨i, first⟩ := exists_firstAt operand
      rw [operators_not kind first, ofNode_not kind operand, List.map_cons, ih _ first.mem]
      rfl
    | join kind left right =>
      obtain ⟨i, first⟩ := exists_firstAt left
      obtain ⟨j, second⟩ := exists_firstAt right
      obtain ⟨op, expr⟩ := ofNode_join kind left right
      rw [operators_join kind first second, expr, List.map_cons, List.map_append, ih _ first.mem, ih _ second.mem]
      rfl
    | lacking lacks => rw [operators_lacking lacks, lacks.ofNode_eq]; rfl

end SyntaxNode

namespace Finder

variable {policy : DecisionPolicy} {n c l r : SyntaxNode} {above : Ancestors} {placement : Placement}

theorem isRunning_situation (above : Ancestors) : above.situation.isRunning = decide above.Reached := by
  rw [Ancestors.situation_eq]
  by_cases reached : above.Reached
  · simp [reached, Situation.isRunning]
  · by_cases atRest : above.AtRest <;> simp [reached, atRest, Situation.isRunning]

/-- The node itself if it is an operator in running code. -/
def operator (o : Occurrence) : List Occurrence := if o.isOperator then [o] else []

theorem operator_eq (n : SyntaxNode) (above : Ancestors) :
    operator ⟨n, above⟩ = if above.situation.isRunning && n.kind.isLogical then [⟨n, above⟩] else [] := by
  rw [operator, Occurrence.isOperator, isRunning_situation]

theorem conditions_eq (n : SyntaxNode) (above : Ancestors) : Occurrence.conditions ⟨n, above⟩ =
    n.children.zipIdx.flatMap fun (c, i) =>
      if above.situation.isRunning && n.decidesBy c then [⟨c, ⟨n, i⟩ :: above⟩] else [] := by
  rw [isRunning_situation, Occurrence.conditions]
  by_cases reached : above.Reached
  · simp [reached, List.map_eq_flatMap, flatMap_filter]
  · simp [reached]

theorem conditions_of_not_deciding (plain : ∀ c, n.decidesBy c = false) : Occurrence.conditions ⟨n, above⟩ = [] := by
  simp [conditions_eq, plain]

theorem idle_operator : Idle operator := by
  rintro ⟨n, above⟩ skipped
  rw [operator_eq, skipped]
  rfl

theorem idle_conditions : Idle Occurrence.conditions := by
  rintro ⟨n, above⟩ skipped
  have skipped : above.situation = .skipped := skipped
  simp [conditions_eq, skipped, Situation.isRunning]

theorem expressionsAll_ownSteps (situation : Situation) (n : SyntaxNode) :
    expressionsAll (ownSteps situation n) = [] := by
  unfold ownSteps checkpointSteps
  split
  · split
    · rfl
    · split
      · split <;> rfl
      · rfl
  · rfl

/-- Roots of the decisions that steps enter, one for each. Together with the operators that are owned by another
decision, theirs are the given operators; they are found at the conditions that are asked for and at operators. -/
structure Located (owned operators asked : List Occurrence) (steps : List Step) (roots : List Occurrence) : Prop where
  expressions : expressionsAll steps = roots.map fun root => DecisionExpr.ofNode root.node
  skeletons : (owned ++ roots.flatMap Occurrence.operators).Perm operators
  conditions : ∀ o ∈ asked, o.unparenthesized ∈ roots
  sound : ∀ root ∈ roots, root ∈ operators ∨ ∃ o ∈ asked, root = o.unparenthesized

section Located

variable {owned owned' operators operators' asked asked' roots roots' : List Occurrence} {steps steps' : List Step}

theorem Located.nil : Located [] [] [] [] [] := ⟨rfl, .nil, nofun, nofun⟩

theorem Located.perm (located : Located owned operators asked steps roots) (same : operators.Perm operators')
    (alike : asked.Perm asked') : Located owned operators' asked' steps roots := by
  refine ⟨located.expressions, located.skeletons.trans same, ?_, ?_⟩
  · exact fun o member => located.conditions o (alike.mem_iff.mpr member)
  · intro root member
    refine (located.sound root member).imp same.mem_iff.mp ?_
    exact fun ⟨o, inside, root⟩ => ⟨o, alike.mem_iff.mp inside, root⟩

theorem Located.append (first : Located owned operators asked steps roots)
    (second : Located owned' operators' asked' steps' roots') :
    Located (owned ++ owned') (operators ++ operators') (asked ++ asked') (steps ++ steps') (roots ++ roots') := by
  refine ⟨?_, ?_, ?_, ?_⟩
  · rw [expressionsAll_eq_flatMap, List.flatMap_append, ← expressionsAll_eq_flatMap, ← expressionsAll_eq_flatMap,
      first.expressions, second.expressions, List.map_append]
  · rw [List.flatMap_append]
    refine List.Perm.trans ?_ (first.skeletons.append second.skeletons)
    rw [List.append_assoc, List.append_assoc]
    exact .append_left _ (List.perm_append_comm_assoc _ _ _)
  · intro o member
    rw [List.mem_append] at member ⊢
    exact member.imp (first.conditions o) (second.conditions o)
  · intro root member
    rcases List.mem_append.mp member with left | right
    · refine (first.sound root left).imp (List.mem_append_left _) ?_
      exact fun ⟨o, inside, same⟩ => ⟨o, List.mem_append_left _ inside, same⟩
    · refine (second.sound root right).imp (List.mem_append_right _) ?_
      exact fun ⟨o, inside, same⟩ => ⟨o, List.mem_append_right _ inside, same⟩

theorem Located.own (located : Located owned operators asked steps roots) (o : Occurrence) :
    Located (o :: owned) (o :: operators) asked steps roots := by
  refine ⟨located.expressions, located.skeletons.cons o, located.conditions, ?_⟩
  exact fun root member => (located.sound root member).imp_left (List.mem_cons_of_mem o)

theorem Located.visit (located : Located owned operators asked steps roots) :
    Located owned operators asked [.visit steps] roots := by
  refine ⟨?_, located.skeletons, located.conditions, located.sound⟩
  rw [← located.expressions]
  simp [expressionsAll, Step.expressions]

theorem located_flatMap {α : Type} {l : List α} {operators asked : α → List Occurrence} {part : α → List Step}
    (each : ∀ a ∈ l, ∃ roots, Located [] (operators a) (asked a) (part a) roots) :
    ∃ roots, Located [] (l.flatMap operators) (l.flatMap asked) (l.flatMap part) roots := by
  induction l with
  | nil => exact ⟨[], .nil⟩
  | cons a l ih =>
    obtain ⟨first, each⟩ := List.forall_mem_cons.mp each
    obtain ⟨roots, located⟩ := first
    obtain ⟨others, rest⟩ := ih each
    exact ⟨roots ++ others, located.append rest⟩

/-- The decision at a node comes before those inside its conditions. -/
theorem Located.root (located : Located (n.operators above) operators asked (visits n).insideDecision roots) :
    Located [] operators (⟨n, above⟩ :: asked) (Children.asDecision n (visits n)) (n.bare above :: roots) := by
  refine ⟨?_, ?_, ?_, ?_⟩
  · rw [List.map_cons, SyntaxNode.node_bare, SyntaxNode.ofNode_unparenthesized, ← located.expressions]
    simp [Children.asDecision, expressionsAll, Step.expressions]
  · rw [List.nil_append, List.flatMap_cons, SyntaxNode.operators_bare]
    exact located.skeletons
  · refine List.forall_mem_cons.mpr ⟨List.mem_cons_self, ?_⟩
    exact fun o member => List.mem_cons_of_mem _ (located.conditions o member)
  · refine List.forall_mem_cons.mpr ⟨Or.inr ⟨⟨n, above⟩, List.mem_cons_self, rfl⟩, ?_⟩
    intro root member
    refine (located.sound root member).imp_right ?_
    rintro ⟨o, below, same⟩
    exact ⟨o, List.mem_cons_of_mem _ below, same⟩

end Located

/-- However a node is met, the decisions in it can be located, if what is found has free places. -/
structure Locates (policy : DecisionPolicy) (n : SyntaxNode) : Prop where
  visit : ∀ above : Ancestors, Distinct (findingsAll policy (visitSteps above.situation n)) → ∃ roots,
    Located [] (gather operator above n) (gather Occurrence.conditions above n) (visitSteps above.situation n) roots
  inside : ∀ (above : Ancestors) (isRoot : Bool), above.situation = .running .nested →
    Distinct (treeFindings policy isRoot (DecisionExpr.ofNode n) ++ insideFindings policy n) → ∃ roots,
    Located (n.operators above) (gather operator above n) (gather Occurrence.conditions above n)
      (visits n).insideDecision roots

theorem Meets.located {decided : Bool} {situation : Situation} {steps : List Step}
    (meets : Meets c decided situation steps) (same : above.situation = situation) (locates : Locates policy c)
    (distinct : Distinct (findingsAll policy steps)) :
    ∃ roots, Located [] (gather operator above c)
      ((if decided then [⟨c, above⟩] else []) ++ gather Occurrence.conditions above c) steps roots := by
  cases meets with
  | nothing empty =>
    subst same
    rw [← empty] at distinct ⊢
    exact locates.visit above distinct
  | visit =>
    subst same
    have inner : findingsAll policy [.visit (visitSteps above.situation c)] =
        findingsAll policy (visitSteps above.situation c) := by
      simp [findingsAll, Step.findings]
    obtain ⟨roots, located⟩ := locates.visit above (inner ▸ distinct)
    exact ⟨roots, located.visit⟩
  | root =>
    rw [findingsAll_asDecision] at distinct
    obtain ⟨roots, located⟩ := locates.inside above true same (List.pairwise_cons.mp distinct).2
    exact ⟨_, located.root⟩

/-- The decisions of a node that is no operator are those of its children. -/
theorem Divided.located {steps : List Step} (divided : Divided n above.situation steps)
    (children : ∀ c ∈ n.children, Locates policy c)
    (plain : above.situation.isRunning = true → n.kind.isLogical = false)
    (distinct : Distinct (findingsAll policy steps)) : ∃ roots,
      Located [] (gather operator above n) (gather Occurrence.conditions above n) steps roots := by
  obtain ⟨part, rfl, meets⟩ := divided
  have each : ∀ x ∈ n.children.zipIdx, ∃ roots, Located [] (gather operator (⟨n, x.2⟩ :: above) x.1)
      ((if above.situation.isRunning && n.decidesBy x.1 then [⟨x.1, ⟨n, x.2⟩ :: above⟩] else []) ++
        gather Occurrence.conditions (⟨n, x.2⟩ :: above) x.1) (part x.1) roots := by
    intro x member
    have child := List.mem_zipIdx_iff_getElem?.mp member
    have inChildren := List.mem_of_getElem? child
    have inside : (findingsAll policy (part x.1)).Sublist
        (findingsAll policy (ownSteps above.situation n ++ n.children.flatMap part)) := by
      rw [findingsAll_append, findingsAll_flatMap, List.flatMap_def]
      refine List.Sublist.trans (List.sublist_flatten_of_mem ?_) (List.sublist_append_right _ _)
      exact List.mem_map_of_mem (f := fun c => findingsAll policy (part c)) inChildren
    exact (meets x.2 x.1 child).located rfl (children x.1 inChildren) (distinct.sublist inside)
  obtain ⟨roots, located⟩ := located_flatMap each
  have indexed : n.children.flatMap part = n.children.zipIdx.flatMap fun x => part x.1 := by
    conv_lhs => rw [← List.zipIdx_map_fst 0 n.children, List.flatMap_map]
  have nothing : operator ⟨n, above⟩ = [] := by
    rw [operator_eq, if_neg]
    intro logical
    obtain ⟨running, logical⟩ := Bool.and_eq_true_iff.mp logical
    rw [plain running] at logical
    cases logical
  refine ⟨roots, Located.perm ⟨?_, located.skeletons, located.conditions, located.sound⟩ ?_ ?_⟩
  · rw [expressionsAll_eq_flatMap, List.flatMap_append, ← expressionsAll_eq_flatMap,
      expressionsAll_ownSteps, List.nil_append, ← expressionsAll_eq_flatMap, indexed, located.expressions]
  · rw [gather_eq, nothing]
    exact .refl _
  · rw [gather_eq, conditions_eq]
    exact (List.flatMap_append_perm _ _ _).symm

section Shapes

variable {isRoot : Bool}

theorem operator_of_logical (running : above.situation = .running placement) (logical : n.kind.isLogical = true) :
    operator ⟨n, above⟩ = [⟨n, above⟩] := by
  rw [operator_eq, running, logical]
  rfl

theorem conditions_of_logical (logical : n.kind.isLogical = true) : Occurrence.conditions ⟨n, above⟩ = [] := by
  refine conditions_of_not_deciding fun c => ?_
  unfold NodeKind.isLogical at logical
  split at logical
  · simp [SyntaxNode.decidesBy, *]
  · simp [SyntaxNode.decidesBy, *]
  · simp [SyntaxNode.decidesBy, *]
  · cases logical

/-- The decisions inside the conditions of a decision, by the shape of its root. -/
theorem located_inside (children : ∀ c ∈ n.children, Locates policy c)
    (running : above.situation = .running placement) (nested : n.kind.isLogical = false → placement = .nested)
    (distinct : Distinct (treeFindings policy isRoot (DecisionExpr.ofNode n) ++ insideFindings policy n)) : ∃ roots,
      Located (n.operators above) (gather operator above n) (gather Occurrence.conditions above n)
        (visits n).insideDecision roots := by
  cases shape n with
  | leaf leaf =>
    have visit : (visits n).asNode true .nested = visitSteps above.situation n := by
      rw [running, nested leaf.plain]
      rfl
    rw [leaf.insideFindings_eq, nodeFindings, visit] at distinct
    rw [leaf.insideDecision_eq, SyntaxNode.operators_leaf leaf, visit]
    obtain ⟨roots, located⟩ := (divided_visit fun _ => leaf.plain).located children (fun _ => leaf.plain)
      (distinct.sublist (List.sublist_append_right _ _))
    exact ⟨roots, located.visit⟩
  | parenthesized role sect inner =>
    rw [insideFindings_parenthesized, DecisionExpr.ofNode] at distinct
    obtain ⟨roots, located⟩ := (children inner (List.mem_singleton.mpr rfl)).inside _ isRoot
      (situation_parenthesized running) distinct
    have plain : Occurrence.conditions ⟨.node (.expression .parenthesized) role sect [inner], above⟩ = [] :=
      conditions_of_not_deciding fun _ => Bool.and_false _
    rw [insideDecision_parenthesized, SyntaxNode.operators]
    refine ⟨roots, located.perm (.of_eq ?_) (.of_eq ?_)⟩
    · rw [gather_eq operator above, operator_eq]
      simp [SyntaxNode.kind, NodeKind.isLogical, SyntaxNode.children]
    · rw [gather_eq Occurrence.conditions above, plain]
      simp [SyntaxNode.children]
  | not kind operand =>
    obtain ⟨i, first⟩ := SyntaxNode.exists_firstAt operand
    have logical : n.kind.isLogical = true := by rw [kind]; rfl
    rw [ofNode_not kind operand, treeFindings, insideFindings_not kind operand] at distinct
    obtain ⟨roots, located⟩ := (children _ first.mem).inside _ false (situation_not kind first running) distinct
    rw [insideDecision_not kind operand, SyntaxNode.operators_not kind first]
    refine ⟨roots, (located.own ⟨n, above⟩).perm (.of_eq ?_) (.of_eq ?_)⟩
    · rw [gather_not idle_operator kind first running, operator_of_logical running logical]
      rfl
    · rw [gather_not idle_conditions kind first running, conditions_of_logical logical]
      rfl
  | @join _ l r kind left right =>
    obtain ⟨i, first⟩ := SyntaxNode.exists_firstAt left
    obtain ⟨j, second⟩ := SyntaxNode.exists_firstAt right
    obtain ⟨op, expr⟩ := ofNode_join kind left right
    have logical : n.kind.isLogical = true := by rcases kind with kind | kind <;> rw [kind] <;> rfl
    rw [expr, treeFindings, insideFindings_join kind left right] at distinct
    obtain ⟨distinctLeft, distinctRight⟩ := distinct.operands
    obtain ⟨roots, located⟩ :=
      (children l first.mem).inside _ false (situation_join kind (Or.inl rfl) first running) distinctLeft
    obtain ⟨others, located'⟩ :=
      (children r second.mem).inside _ false (situation_join kind (Or.inr rfl) second running) distinctRight
    rw [insideDecision_join kind left right, SyntaxNode.operators_join kind first second]
    refine ⟨roots ++ others, ((located.append located').own ⟨n, above⟩).perm ?_ ?_⟩
    · have all := gather_join idle_operator kind first second running
      rwa [operator_of_logical running logical] at all
    · have all := gather_join idle_conditions kind first second running
      rwa [conditions_of_logical logical] at all
  | lacking lacks =>
    -- the condition that the operator is itself would be entered twice
    rw [lacks.ofNode_eq, lacks.insideFindings_eq] at distinct
    simp [Distinct, treeFindings, Finding.Clashes] at distinct

theorem locates (policy : DecisionPolicy) (n : SyntaxNode) : Locates policy n := by
  induction n using SyntaxNode.induction with
  | step n ih =>
    refine ⟨?_, fun above isRoot running => located_inside ih running fun _ => rfl⟩
    intro above distinct
    by_cases plain : above.situation.isRunning = true → n.kind.isLogical = false
    · exact (divided_visit plain).located ih plain distinct
    · obtain ⟨running, logical⟩ := Classical.not_imp.mp plain
      obtain ⟨placement, running⟩ := Situation.exists_running running
      have logical : n.kind.isLogical = true := Bool.not_eq_false _ ▸ logical
      have root : visitSteps above.situation n = Children.asDecision n (visits n) := by
        rw [running, visitSteps, asNode_logical logical]
      rw [root, findingsAll_asDecision] at distinct
      obtain ⟨roots, located⟩ :=
        located_inside ih running (fun plain => absurd plain (by simp [logical])) (List.pairwise_cons.mp distinct).2
      have own : ⟨n, above⟩ ∈ gather operator above n := by
        rw [gather_eq, operator_of_logical running logical]
        exact List.mem_cons_self
      obtain ⟨expressions, skeletons, conditions, -⟩ := located.root
      rw [root]
      refine ⟨_, expressions, skeletons, (List.forall_mem_cons.mp conditions).2, ?_⟩
      rw [SyntaxNode.bare_of_logical logical]
      exact List.forall_mem_cons.mpr ⟨Or.inl own, located.sound⟩

end Shapes

mutual

theorem sublist_expressions_step (step : Step) :
    (step.expressions.map fun e => Finding.evaluation e.sect .decision).Sublist (step.findings policy) := by
  match step with
  | .checkpoint sect braced => exact List.nil_sublist _
  | .decision expr inside =>
    rw [Step.expressions, Step.findings]
    exact ((sublist_expressions_steps inside).trans (List.sublist_append_right _ _)).cons_cons _
  | .visit steps => exact sublist_expressions_steps steps

/-- Every decision is found where its expression is. -/
theorem sublist_expressions_steps (steps : List Step) :
    ((expressionsAll steps).map fun e => Finding.evaluation e.sect .decision).Sublist (findingsAll policy steps) := by
  match steps with
  | [] => exact List.nil_sublist _
  | step :: steps =>
    rw [expressionsAll, List.map_append, findingsAll]
    exact (sublist_expressions_step step).append (sublist_expressions_steps steps)

end

/-- No two decisions have the same root, as long as what is found has free places. -/
theorem Located.nodup {owned operators asked roots : List Occurrence} {steps : List Step}
    (located : Located owned operators asked steps roots) (distinct : Distinct (findingsAll policy steps)) :
    roots.Nodup := by
  have apart := distinct.sublist (sublist_expressions_steps steps)
  rw [located.expressions, List.map_map, List.pairwise_map] at apart
  refine apart.imp ?_
  rintro root _ clash rfl
  exact clash ⟨rfl, rfl⟩

theorem existsUnique_index {α : Type} {l : List α} {a : α} (nodup : l.Nodup) (member : a ∈ l) :
    ∃! i : Nat, l[i]? = some a := by
  obtain ⟨i, bound, rfl⟩ := List.getElem_of_mem member
  refine ⟨i, List.getElem?_eq_getElem bound, ?_⟩
  intro j same
  exact ((List.getElem?_inj bound nodup).mp ((List.getElem?_eq_getElem bound).trans same.symm)).symm

theorem existsUnique_index_flatMap {α β : Type} {l : List α} {f : α → List β} {b : β} (nodup : (l.flatMap f).Nodup)
    (member : b ∈ l.flatMap f) : ∃! i : Nat, ∃ a, l[i]? = some a ∧ b ∈ f a := by
  obtain ⟨a, inside, here⟩ := List.mem_flatMap.mp member
  obtain ⟨i, bound, rfl⟩ := List.getElem_of_mem inside
  have disjoint := List.pairwise_iff_getElem.mp (List.nodup_flatMap.mp nodup).2
  refine ⟨i, ⟨l[i], List.getElem?_eq_getElem bound, here⟩, ?_⟩
  rintro j ⟨a, same, there⟩
  obtain ⟨bound', rfl⟩ := List.getElem?_eq_some_iff.mp same
  rcases Nat.lt_trichotomy i j with less | equal | greater
  · exact absurd there (disjoint i j bound bound' less here)
  · exact equal.symm
  · exact absurd here (disjoint j i bound' bound greater there)

end Finder

/-- If a walk fails nowhere, its records are those of the decisions at the given roots. Every operator in running code
divides just one of them, every condition is without its parentheses the root of just one of them, and there are no
others but at such conditions and operators. -/
theorem decisions_walk (policy : DecisionPolicy) (root : SyntaxNode) (hash : String)
    (success : (walk policy root { sourceHash := hash }).failure = none) :
    let walked := walk policy root { sourceHash := hash }
    ∃ roots : List Occurrence,
      List.Forall₂ (fun d r => d.Depicts walked.ledger.markers (DecisionExpr.ofNode r.node))
        walked.ledger.decisions roots ∧
      walked.decisions = roots.length ∧
      (∀ r ∈ roots, r.operators.map (fun o => o.node.sect) = (DecisionExpr.ofNode r.node).operatorSects) ∧
      (∀ o ∈ root.occurrences [], o.isOperator = true → ∃! i : Nat, ∃ r, roots[i]? = some r ∧ o ∈ r.operators) ∧
      (∀ o ∈ root.occurrences [], ∀ c ∈ o.conditions, ∃! i : Nat, roots[i]? = some c.unparenthesized) ∧
      ∀ r ∈ roots, (r ∈ root.occurrences [] ∧ r.isOperator = true) ∨
        ∃ o ∈ root.occurrences [], ∃ c ∈ o.conditions, r = c.unparenthesized := by
  intro walked
  have distinct : Distinct (findingsAll policy (visitSteps .resting root)) := distinct_of_walk success
  obtain ⟨roots, located⟩ := (locates policy root).visit [] distinct
  have operators : gather operator [] root = (root.occurrences []).filter Occurrence.isOperator := by
    rw [← List.flatMap_singleton' (List.filter _ _), flatMap_filter]
    rfl
  have nodup : (roots.flatMap Occurrence.operators).Nodup := by
    rw [← List.nil_append (roots.flatMap _), located.skeletons.nodup_iff, operators]
    exact (root.nodup_occurrences []).filter _
  have depicts : List.Forall₂ (fun d r => d.Depicts walked.ledger.markers (DecisionExpr.ofNode r.node))
      walked.ledger.decisions roots := by
    have depicts := depicts_walk success
    have expressions : expressionsAll ((visits root).asNode false .nested) = _ := located.expressions
    rw [expressions] at depicts
    exact List.forall₂_map_right_iff.mp depicts
  refine ⟨roots, depicts, ?_, fun r _ => SyntaxNode.sects_operators r.node r.ancestors, ?_, ?_, ?_⟩
  · have goesOn := goesOn_walk success
    rw [← depicts.length_eq, goesOn.decisions, goesOn.grows.decisions]
    exact Nat.zero_add _
  · intro o member isOperator
    refine existsUnique_index_flatMap nodup ((located.skeletons.mem_iff).mpr ?_)
    rw [operators]
    exact List.mem_filter.mpr ⟨member, isOperator⟩
  · intro o member c condition
    refine existsUnique_index (located.nodup distinct) (located.conditions c ?_)
    exact List.mem_flatMap.mpr ⟨o, member, condition⟩
  · intro r member
    refine (located.sound r member).imp ?_ ?_
    · intro inside
      rw [operators] at inside
      exact List.mem_filter.mp inside
    · rintro ⟨c, inside, same⟩
      obtain ⟨o, member, condition⟩ := List.mem_flatMap.mp inside
      exact ⟨o, member, c, condition, same⟩

theorem decisions_nestedChoice :
    (walk .leaves nestedChoice { sourceHash := "" }).failure = none ∧
      ((nestedChoice.occurrences []).filter Occurrence.isOperator).length = 3 ∧
      ((nestedChoice.occurrences []).flatMap Occurrence.conditions).length = 1 ∧
      ∃ roots : List Occurrence, roots.length = 2 ∧
        (∀ o ∈ nestedChoice.occurrences [], o.isOperator = true → ∃! i : Nat, ∃ r, roots[i]? = some r ∧
          o ∈ r.operators) ∧
        ∀ o ∈ nestedChoice.occurrences [], ∀ c ∈ o.conditions, ∃! i : Nat, roots[i]? = some c.unparenthesized := by
  have success : (walk .leaves nestedChoice { sourceHash := "" }).failure = none := by decide
  have two : (walk .leaves nestedChoice { sourceHash := "" }).decisions = 2 := by decide
  obtain ⟨roots, -, length, -, operators, conditions, -⟩ := decisions_walk .leaves nestedChoice "" success
  exact ⟨success, by decide, by decide, roots, length.symm.trans two, operators, conditions⟩

end SourceCoverage
