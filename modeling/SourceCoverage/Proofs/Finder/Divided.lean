import Mathlib.Data.List.Perm.Basic
import SourceCoverage.Proofs.Finder.Nodes
import SourceCoverage.Proofs.Finder.Occurrence

namespace SourceCoverage

theorem SyntaxNode.induction {motive : SyntaxNode → Prop}
    (step : ∀ n : SyntaxNode, (∀ c ∈ n.children, motive c) → motive n) (n : SyntaxNode) : motive n := by
  refine @SyntaxNode.rec motive (fun children => ∀ c ∈ children, motive c) ?_ ?_ ?_ n
  · exact fun kind role sect children each => step (.node kind role sect children) each
  · exact fun c absent => nomatch absent
  · exact fun c children first rest => List.forall_mem_cons.mpr ⟨first, rest⟩

/-- A condition by which a node decides: of a control statement that takes it as true or false, or of a choice. -/
def SyntaxNode.decidesBy (n c : SyntaxNode) : Bool :=
  c.role == .condition && match n.kind with
    | .control kind => kind.isBoolean && c.kind != .constantContext
    | .expression (.conditional elvis) => !elvis
    | _ => false

/-- The child at an index is the first that plays a role. -/
structure SyntaxNode.FirstAt (n : SyntaxNode) (role : Role) (c : SyntaxNode) (i : Nat) : Prop where
  child : n.children[i]? = some c
  index : n.children.findIdx? (·.role == role) = some i

theorem SyntaxNode.exists_firstAt {n c : SyntaxNode} {role : Role} (first : n.child? role = some c) :
    ∃ i, n.FirstAt role c i := by
  obtain ⟨plays, i, bound, rfl, earlier⟩ := List.find?_eq_some_iff_getElem.mp first
  refine ⟨i, List.getElem?_eq_getElem bound, ?_⟩
  exact List.findIdx?_eq_some_iff_getElem.mpr ⟨bound, plays, fun j less => by simpa using earlier j less⟩

theorem SyntaxNode.FirstAt.plays {n c : SyntaxNode} {role : Role} {i : Nat} (first : n.FirstAt role c i) :
    c.role = role := by
  obtain ⟨bound, plays, -⟩ := List.findIdx?_eq_some_iff_getElem.mp first.index
  rw [Option.some.inj ((List.getElem?_eq_getElem bound).symm.trans first.child)] at plays
  exact beq_iff_eq.mp plays

theorem SyntaxNode.FirstAt.mem {n c : SyntaxNode} {role : Role} {i : Nat} (first : n.FirstAt role c i) :
    c ∈ n.children := List.mem_of_getElem? first.child

theorem SyntaxNode.FirstAt.leavesByFirst {n c : SyntaxNode} {role : Role} {i : Nat} (first : n.FirstAt role c i)
    (j : Nat) :
    (⟨n, j⟩ : Ancestor).leavesByFirst role = decide (j = i) := by
  rw [Ancestor.leavesByFirst, first.index, Bool.eq_iff_iff]
  simpa using eq_comm

namespace Finder

def Situation.isRunning : Situation → Bool
  | running _ => true
  | skipped | resting => false

theorem Situation.exists_running {situation : Situation} (running : situation.isRunning = true) :
    ∃ placement, situation = .running placement := by
  cases situation with
  | running placement => exact ⟨placement, rfl⟩
  | skipped | resting => cases running

/-- The steps of a visit, by the situation in which a node is met. -/
def visitSteps : Situation → SyntaxNode → List Step
  | .skipped, _ => []
  | .resting, n => (visits n).asNode false .nested
  | .running placement, n => (visits n).asNode true placement

/-- The steps of a node that are not those of its children. -/
def ownSteps : Situation → SyntaxNode → List Step
  | .running placement, .node (.statement kind) _ sect _ =>
    if isInert kind then [] else checkpointSteps kind placement sect
  | _, _ => []

/-- What a walk does with a node that it meets in a situation: it enters the node as a decision, or visits it, or
leaves it out if there is nothing to visit. -/
inductive Meets (n : SyntaxNode) : (decided : Bool) → Situation → List Step → Prop
  | nothing {situation : Situation} (empty : visitSteps situation n = []) : Meets n false situation []
  | visit (situation : Situation) : Meets n false situation [.visit (visitSteps situation n)]
  | root : Meets n true (.running .nested) (Children.asDecision n (visits n))

/-- Steps that consist of those of a node and of what is done with its children. -/
def Divided (n : SyntaxNode) (situation : Situation) (steps : List Step) : Prop :=
  ∃ part : SyntaxNode → List Step, steps = ownSteps situation n ++ n.children.flatMap part ∧
    ∀ i c, n.children[i]? = some c →
      Meets c (situation.isRunning && n.decidesBy c) ((⟨n, i⟩ : Ancestor).behind situation) (part c)

theorem leavesBy_eq {n c : SyntaxNode} {i : Nat} (child : n.children[i]? = some c) (roles : List Role) :
    (⟨n, i⟩ : Ancestor).leavesBy roles = roles.contains c.role := by
  rw [Ancestor.leavesBy, child]
  rfl

section Divided

variable {n : SyntaxNode} {situation inner : Situation}

theorem divided_nil (nothing : ownSteps situation n = [])
    (plain : ∀ c, (situation.isRunning && n.decidesBy c) = false)
    (skipped : ∀ i, (⟨n, i⟩ : Ancestor).behind situation = .skipped) : Divided n situation [] := by
  refine ⟨fun _ => [], by simp [nothing], ?_⟩
  intro i c _
  rw [skipped i, plain c]
  exact .nothing rfl

theorem divided_each {executable : Bool} {placement : Placement} (nothing : ownSteps situation n = [])
    (plain : ∀ c, (situation.isRunning && n.decidesBy c) = false)
    (behind : ∀ i, (⟨n, i⟩ : Ancestor).behind situation = inner)
    (same : ∀ c, visitSteps inner c = (visits c).asNode executable placement) :
    Divided n situation (Children.each (n.children.map fun c => (c, visits c)) executable placement) := by
  refine ⟨fun c => [.visit (visitSteps inner c)], ?_, ?_⟩
  · rw [nothing, List.nil_append, Children.each, List.map_map, List.map_eq_flatMap]
    simp only [same, Function.comp_apply]
  · intro i c _
    rw [behind i, plain c]
    exact .visit inner

theorem flatMap_filter {α β : Type} (p : α → Bool) (f : α → List β) (l : List α) :
    (l.filter p).flatMap f = l.flatMap fun a => if p a then f a else [] := by
  induction l with
  | nil => rfl
  | cons a l ih => cases test : p a <;> simp [test, ih]

theorem divided_function {constant : Bool} (kind : n.kind = .function constant) (nothing : ownSteps situation n = [])
    (behind : ∀ i, (⟨n, i⟩ : Ancestor).behind situation = (⟨n, i⟩ : Ancestor).behindFunction) :
    Divided n situation (if constant then [] else Children.ofFunction (n.children.map fun c => (c, visits c))) := by
  have plain (c : SyntaxNode) : (situation.isRunning && n.decidesBy c) = false := by simp [SyntaxNode.decidesBy, kind]
  cases constant with
  | true =>
    refine divided_nil nothing plain fun i => ?_
    rw [behind]
    simp [Ancestor.behindFunction, Ancestor.runsFunction, kind]
  | false =>
    refine ⟨fun c => if c.role == .initializer || c.role == .body then [.visit ((visits c).asNode true .nested)]
      else [], ?_, ?_⟩
    · rw [nothing, List.nil_append, ← flatMap_filter, if_neg (by simp), Children.ofFunction, List.filter_map,
        Children.each, List.map_map, List.map_eq_flatMap]
      rfl
    · intro i c child
      have runs : (⟨n, i⟩ : Ancestor).runsFunction = (c.role == .initializer || c.role == .body) := by
        rw [Ancestor.runsFunction, kind, leavesBy_eq child]
        cases c.role <;> rfl
      rw [behind, Ancestor.behindFunction, runs, plain c]
      dsimp only
      cases c.role == .initializer || c.role == .body with
      | true => exact .visit (.running .nested)
      | false => exact .nothing rfl

theorem divided_statement {statement : StatementKind} (kind : n.kind = .statement statement) (placement : Placement) :
    Divided n (.running placement) (if isInert statement then []
      else checkpointSteps statement placement n.sect ++
        Children.each (n.children.map fun c => (c, visits c)) true .nested) := by
  obtain ⟨_, role, sect, children⟩ := n
  obtain rfl : _ = NodeKind.statement statement := kind
  cases inert : isInert statement with
  | true =>
    refine divided_nil (by simp [ownSteps, inert]) (fun c => by simp [SyntaxNode.decidesBy, SyntaxNode.kind])
      fun i => ?_
    simp [Ancestor.behind, Ancestor.behindRunning, SyntaxNode.kind, inert]
  | false =>
    refine ⟨fun c => [.visit ((visits c).asNode true .nested)], ?_, ?_⟩
    · rw [ownSteps, inert, Children.each, List.map_map, List.map_eq_flatMap]
      rfl
    · intro i c _
      have behind : (⟨.node (.statement statement) role sect children, i⟩ : Ancestor).behind (.running placement) =
          .running .nested := by
        simp [Ancestor.behind, Ancestor.behindRunning, SyntaxNode.kind, inert]
      have plain : SyntaxNode.decidesBy (.node (.statement statement) role sect children) c = false := by
        simp [SyntaxNode.decidesBy, SyntaxNode.kind]
      rw [behind, plain]
      exact .visit (.running .nested)

theorem divided_control {control : ControlKind} (kind : n.kind = .control control) (placement : Placement) :
    Divided n (.running placement) (Children.ofControl (n.children.map fun c => (c, visits c)) control) := by
  obtain ⟨_, role, sect, children⟩ := n
  obtain rfl : _ = NodeKind.control control := kind
  refine ⟨_, List.flatMap_map _ _ _, ?_⟩
  intro i c child
  have behind : (⟨.node (.control control) role sect children, i⟩ : Ancestor).behind (.running placement) = .running
      (if c.role == .body || c.role == .consequence || c.role == .alternative then .body else .nested) := by
    simp [Ancestor.behind, Ancestor.behindRunning, SyntaxNode.kind, leavesBy_eq child, or_assoc]
  have decided : SyntaxNode.decidesBy (.node (.control control) role sect children) c =
      (c.role == .condition && (control.isBoolean && c.kind != .constantContext)) := rfl
  rw [behind, decided]
  dsimp only
  by_cases condition : (c.role == .condition && control.isBoolean) = true
  · obtain ⟨role, boolean⟩ := Bool.and_eq_true_iff.mp condition
    rw [if_pos condition, beq_iff_eq.mp role, boolean]
    show Meets c (c.kind != .constantContext) (.running .nested) _
    by_cases constant : (c.kind == .constantContext) = true
    · rw [if_pos constant, bne, constant]
      refine .nothing ?_
      rw [visitSteps, visits_eq]
      simp [Visits.ofNode, Visits.running, beq_iff_eq.mp constant]
    · rw [if_neg constant, bne, Bool.eq_false_iff.mpr constant]
      exact .root
  · have plain : (c.role == .condition && (control.isBoolean && c.kind != .constantContext)) = false := by
      rw [← Bool.and_assoc, Bool.eq_false_iff.mpr condition]
      rfl
    rw [if_neg condition, plain]
    split
    · exact .visit (.running .body)
    · exact .visit (.running .nested)

theorem divided_conditional {elvis : Bool} (kind : n.kind = .expression (.conditional elvis))
    (placement : Placement) :
    Divided n (.running placement) (Children.ofConditional (n.children.map fun c => (c, visits c)) elvis) := by
  obtain ⟨_, role, sect, children⟩ := n
  obtain rfl : _ = NodeKind.expression (.conditional elvis) := kind
  refine ⟨_, List.flatMap_map _ _ _, ?_⟩
  intro i c _
  show Meets c (c.role == .condition && !elvis) (.running .nested) _
  dsimp only
  cases c.role == .condition && !elvis with
  | true => exact .root
  | false => exact .visit (.running .nested)

/-- Outside of operators, the steps of a visit are the node's own and those of its children. -/
theorem divided_visit (plain : situation.isRunning = true → n.kind.isLogical = false) :
    Divided n situation (visitSteps situation n) := by
  obtain ⟨kind, role, sect, children⟩ := n
  cases situation with
  | skipped => exact divided_nil rfl (fun _ => rfl) fun _ => rfl
  | resting =>
    rw [visitSteps, visits_eq]
    cases kind with
    | constantContext => exact divided_nil rfl (fun _ => rfl) fun _ => rfl
    | function constant => exact divided_function rfl rfl fun _ => rfl
    | _ => exact divided_each rfl (fun _ => rfl) (fun _ => rfl) fun _ => rfl
  | running placement =>
    rw [visitSteps, visits_eq]
    cases kind with
    | constantContext => exact divided_nil rfl (fun _ => Bool.and_false _) fun _ => rfl
    | function constant => exact divided_function rfl rfl fun _ => rfl
    | statement statement => exact divided_statement rfl placement
    | control control => exact divided_control rfl placement
    | expression expression =>
      cases expression with
      | conditional elvis => exact divided_conditional rfl placement
      | and | or | not => cases plain rfl
      | parenthesized | other => exact divided_each rfl (fun _ => Bool.and_false _) (fun _ => rfl) fun _ => rfl
    | unit | compound | container | other =>
      exact divided_each rfl (fun _ => Bool.and_false _) (fun _ => rfl) fun _ => rfl

end Divided

/-- What there is at a node and below it. -/
def gather {β : Type} (f : Occurrence → List β) (above : Ancestors) (n : SyntaxNode) : List β :=
  (n.occurrences above).flatMap f

/-- There is nothing where a walk does not come. -/
def Idle {β : Type} (f : Occurrence → List β) : Prop := ∀ o : Occurrence, o.ancestors.situation = .skipped → f o = []

section Gather

variable {β : Type} {f : Occurrence → List β} {n c l r : SyntaxNode} {above : Ancestors} {placement : Placement}
  {i j : Nat}

theorem gather_eq (f : Occurrence → List β) (above : Ancestors) (n : SyntaxNode) :
    gather f above n = f ⟨n, above⟩ ++ n.children.zipIdx.flatMap fun (c, i) => gather f (⟨n, i⟩ :: above) c := by
  rw [gather, SyntaxNode.occurrences_eq, List.flatMap_cons, List.flatMap_assoc]
  rfl

theorem gather_of_skipped (idle : Idle f) (skipped : above.situation = .skipped) : gather f above n = [] := by
  induction n using SyntaxNode.induction generalizing above with
  | step n ih =>
    rw [gather_eq, idle ⟨n, above⟩ skipped, List.nil_append, List.flatMap_eq_nil_iff]
    rintro ⟨c, i⟩ child
    have behind : Ancestors.situation (⟨n, i⟩ :: above) = .skipped := by rw [Ancestors.situation, skipped]; rfl
    exact ih c (List.mem_of_getElem? (List.mem_zipIdx_iff_getElem?.mp child)) behind

theorem flatMap_zipIdx_single {α : Type} {children : List α} {c : α} (child : children[i]? = some c)
    (count : Nat) (f : α × Nat → List β) :
    ((children.zipIdx count).flatMap fun x => if x.2 = count + i then f x else []) = f (c, count + i) := by
  induction children generalizing count i with
  | nil => cases child
  | cons d children ih =>
    rw [List.zipIdx_cons, List.flatMap_cons]
    cases i with
    | zero =>
      obtain rfl : d = c := by simpa using child
      have later : ((children.zipIdx (count + 1)).flatMap fun x => if x.2 = count + 0 then f x else []) = [] := by
        rw [List.flatMap_eq_nil_iff]
        intro x member
        have := (List.mem_zipIdx member).1
        rw [if_neg (by omega)]
      rw [later, List.append_nil]
      exact if_pos rfl
    | succ i =>
      have rest := ih (i := i) (by simpa using child) (count + 1)
      rw [if_neg (by simp)]
      simpa [Nat.add_assoc, Nat.add_comm 1] using rest

/-- What happens only behind the first child with a role happens behind that child. -/
theorem flatMap_leavesByFirst {role : Role} (first : n.FirstAt role c i) (f : SyntaxNode × Nat → List β) :
    (n.children.zipIdx.flatMap fun x => if (⟨n, x.2⟩ : Ancestor).leavesByFirst role then f x else []) = f (c, i) := by
  have single := flatMap_zipIdx_single first.child 0 f
  simp only [Nat.zero_add] at single
  simpa only [first.leavesByFirst, decide_eq_true_eq] using single

theorem situation_operand {kind : ExpressionKind} (logical : (NodeKind.expression kind).isLogical = true)
    (same : n.kind = .expression kind) (running : above.situation = .running placement) (i : Nat) :
    Ancestors.situation (⟨n, i⟩ :: above) =
      if (⟨n, i⟩ : Ancestor).passesOperator then .running .nested else .skipped := by
  rw [Ancestors.situation, running, Ancestor.behind]
  unfold Ancestor.behindRunning
  cases kind with
  | and | or | not => simp only [same]
  | _ => cases logical

/-- Below an operator there is only what is behind an operand. -/
theorem gather_logical (idle : Idle f) {kind : ExpressionKind} (logical : (NodeKind.expression kind).isLogical = true)
    (same : n.kind = .expression kind) (running : above.situation = .running placement) :
    gather f above n = f ⟨n, above⟩ ++ n.children.zipIdx.flatMap fun x =>
      if (⟨n, x.2⟩ : Ancestor).passesOperator then gather f (⟨n, x.2⟩ :: above) x.1 else [] := by
  rw [gather_eq]
  congr 1
  refine List.flatMap_congr ?_
  rintro ⟨c, i⟩ -
  have behind := situation_operand logical same running i
  show gather f (⟨n, i⟩ :: above) c = if (⟨n, i⟩ : Ancestor).passesOperator then gather f (⟨n, i⟩ :: above) c else []
  by_cases passes : (⟨n, i⟩ : Ancestor).passesOperator = true
  · rw [if_pos passes]
  · rw [if_neg passes] at behind ⊢
    exact gather_of_skipped idle behind

theorem situation_parenthesized {role : Role} {sect : Section} {inner : SyntaxNode}
    (running : above.situation = .running placement) :
    Ancestors.situation (⟨.node (.expression .parenthesized) role sect [inner], 0⟩ :: above) = .running .nested := by
  rw [Ancestors.situation, running]
  rfl

theorem passesOperator_not (kind : n.kind = .expression .not) (i : Nat) :
    (⟨n, i⟩ : Ancestor).passesOperator = (⟨n, i⟩ : Ancestor).leavesByFirst .operand := by
  simp [Ancestor.passesOperator, kind]

theorem passesOperator_join (kind : n.kind = .expression .and ∨ n.kind = .expression .or) (i : Nat) :
    (⟨n, i⟩ : Ancestor).passesOperator =
      ((⟨n, i⟩ : Ancestor).leavesByFirst .left || (⟨n, i⟩ : Ancestor).leavesByFirst .right) := by
  rcases kind with kind | kind <;> simp [Ancestor.passesOperator, kind]

theorem situation_not (kind : n.kind = .expression .not) (operand : n.FirstAt .operand c i)
    (running : above.situation = .running placement) : Ancestors.situation (⟨n, i⟩ :: above) = .running .nested := by
  rw [situation_operand rfl kind running, passesOperator_not kind, operand.leavesByFirst]
  simp

theorem gather_not (idle : Idle f) (kind : n.kind = .expression .not) (operand : n.FirstAt .operand c i)
    (running : above.situation = .running placement) :
    gather f above n = f ⟨n, above⟩ ++ gather f (⟨n, i⟩ :: above) c := by
  rw [gather_logical idle rfl kind running]
  simp only [passesOperator_not kind]
  rw [flatMap_leavesByFirst operand fun x => gather f (⟨n, x.2⟩ :: above) x.1]

theorem isLogical_join (kind : n.kind = .expression .and ∨ n.kind = .expression .or) :
    ∃ e, (NodeKind.expression e).isLogical = true ∧ n.kind = .expression e := by
  rcases kind with kind | kind
  · exact ⟨.and, rfl, kind⟩
  · exact ⟨.or, rfl, kind⟩

theorem situation_join (kind : n.kind = .expression .and ∨ n.kind = .expression .or) {role : Role}
    (either : role = .left ∨ role = .right) (operand : n.FirstAt role c i)
    (running : above.situation = .running placement) :
    Ancestors.situation (⟨n, i⟩ :: above) = .running .nested := by
  obtain ⟨expression, logical, same⟩ := isLogical_join kind
  rw [situation_operand logical same running, passesOperator_join kind]
  rcases either with rfl | rfl <;> simp [operand.leavesByFirst]

theorem gather_join (idle : Idle f) (kind : n.kind = .expression .and ∨ n.kind = .expression .or)
    (left : n.FirstAt .left l i) (right : n.FirstAt .right r j) (running : above.situation = .running placement) :
    (f ⟨n, above⟩ ++ (gather f (⟨n, i⟩ :: above) l ++ gather f (⟨n, j⟩ :: above) r)).Perm (gather f above n) := by
  obtain ⟨expression, logical, same⟩ := isLogical_join kind
  -- a child has one role, so no child is both the first left and the first right operand
  have apart : i ≠ j := by
    rintro rfl
    obtain rfl : l = r := Option.some.inj (left.child.symm.trans right.child)
    cases left.plays.symm.trans right.plays
  rw [gather_logical idle logical same running]
  refine .append_left _ ?_
  rw [← flatMap_leavesByFirst left fun x => gather f (⟨n, x.2⟩ :: above) x.1,
    ← flatMap_leavesByFirst right fun x => gather f (⟨n, x.2⟩ :: above) x.1]
  refine (List.flatMap_append_perm _ _ _).trans (.of_eq (List.flatMap_congr ?_))
  rintro x -
  simp only [passesOperator_join kind, left.leavesByFirst, right.leavesByFirst]
  by_cases first : x.2 = i
  · simp [first, apart]
  · by_cases second : x.2 = j
    · simp [second, apart.symm]
    · simp [first, second]

end Gather

end Finder

end SourceCoverage
