import Mathlib.Data.List.Basic
import SourceCoverage.Finder

namespace SourceCoverage

/-- An ancestor of a node, with the index of that child of it which is on the way to the node. -/
structure Ancestor where
  node : SyntaxNode
  index : Nat

/-- The ancestors of a node, the nearest first. -/
abbrev Ancestors := List Ancestor

structure Occurrence where
  node : SyntaxNode
  ancestors : Ancestors

namespace Ancestor

/-- The child on the way plays one of the roles. -/
def leavesBy (a : Ancestor) (roles : List Role) : Bool := a.node.children[a.index]?.any (roles.contains ·.role)

/-- The child on the way is the first that plays the role. -/
def leavesByFirst (a : Ancestor) (role : Role) : Bool := a.node.children.findIdx? (·.role == role) == some a.index

def isFunction (a : Ancestor) : Bool :=
  match a.node.kind with
  | .function _ => true
  | _ => false

def isControl (a : Ancestor) : Bool :=
  match a.node.kind with
  | .control _ => true
  | _ => false

/-- What a function runs lies on the way: it is not constant, and is left through its body or an initializer. -/
def runsFunction (a : Ancestor) : Bool := a.node.kind == .function false && a.leavesBy [.body, .initializer]

/-- An empty statement, or a declaration that outlives its block. -/
def isBarren (a : Ancestor) : Bool :=
  match a.node.kind with
  | .statement .empty | .statement (.declaration _ true) => true
  | _ => false

/-- An operator is left through an operand. -/
def passesOperator (a : Ancestor) : Bool :=
  match a.node.kind with
  | .expression .and | .expression .or => a.leavesByFirst .left || a.leavesByFirst .right
  | .expression .not => a.leavesByFirst .operand
  | _ => true

end Ancestor

mutual

/-- A node and all nodes below it, where they occur. -/
def SyntaxNode.occurrences (above : Ancestors) : SyntaxNode → List Occurrence
  | .node kind role sect children =>
    ⟨.node kind role sect children, above⟩ :: occurrencesEach (.node kind role sect children) above 0 children

/-- The children from an index on, and all nodes below them. -/
def occurrencesEach (parent : SyntaxNode) (above : Ancestors) : Nat → List SyntaxNode → List Occurrence
  | _, [] => []
  | index, c :: rest => c.occurrences (⟨parent, index⟩ :: above) ++ occurrencesEach parent above (index + 1) rest

end

theorem occurrencesEach_eq_flatMap (parent : SyntaxNode) (above : Ancestors) (index : Nat)
    (children : List SyntaxNode) :
    occurrencesEach parent above index children =
      (children.zipIdx index).flatMap fun (c, i) => c.occurrences (⟨parent, i⟩ :: above) := by
  induction children generalizing index with
  | nil => rfl
  | cons c rest ih => rw [occurrencesEach, ih, List.zipIdx_cons, List.flatMap_cons]

theorem SyntaxNode.occurrences_eq (n : SyntaxNode) (above : Ancestors) :
    n.occurrences above =
      ⟨n, above⟩ :: n.children.zipIdx.flatMap fun (c, i) => c.occurrences (⟨n, i⟩ :: above) := by
  obtain ⟨kind, role, sect, children⟩ := n
  rw [occurrences, occurrencesEach_eq_flatMap]
  rfl

namespace Ancestors

/-- The ancestors below the outermost function. -/
def belowFunction : Ancestors → Ancestors
  | [] => []
  | a :: above => if above.any Ancestor.isFunction then a :: belowFunction above else []

/-- A walk comes through these ancestors to running code. -/
structure Reached (above : Ancestors) : Prop where
  within : ∃ a ∈ above, a.isFunction = true
  functions : ∀ a ∈ above, a.isFunction = true → a.runsFunction = true
  varying : ∀ a ∈ above, a.node.kind ≠ .constantContext
  fertile : ∀ a ∈ above.belowFunction, a.isBarren = false
  operands : ∀ a ∈ above.belowFunction, a.passesOperator = true

instance (above : Ancestors) : Decidable above.Reached :=
  decidable_of_iff ((∃ a ∈ above, a.isFunction = true) ∧ (∀ a ∈ above, a.isFunction = true → a.runsFunction = true) ∧
      (∀ a ∈ above, a.node.kind ≠ .constantContext) ∧ (∀ a ∈ above.belowFunction, a.isBarren = false) ∧
      ∀ a ∈ above.belowFunction, a.passesOperator = true)
    ⟨fun ⟨within, functions, varying, fertile, operands⟩ => ⟨within, functions, varying, fertile, operands⟩,
      fun ⟨within, functions, varying, fertile, operands⟩ => ⟨within, functions, varying, fertile, operands⟩⟩

/-- The nearest ancestor that is no container. -/
def enclosing? (above : Ancestors) : Option Ancestor := above.find? (·.node.kind != .container)

/-- What comes next stands in a block. -/
def isBlock (above : Ancestors) : Bool := above.enclosing?.any (·.node.kind == .compound)

/-- What comes next stands alone as what a control statement controls. -/
def isControlled (above : Ancestors) : Bool :=
  above.enclosing?.any fun a => a.isControl && a.leavesBy [.body, .consequence, .alternative]

end Ancestors

namespace Occurrence

/-- Statements that do something by themselves. -/
def isSimple (o : Occurrence) : Bool :=
  match o.node.kind with
  | .statement .expression | .statement .returns | .statement .jumps | .statement .throws
  | .statement (.declaration true false) => true
  | _ => false

/-- Where the checkpoint of a node has to be and what it has to brace, if it has to have one. -/
def checkpoint? (o : Occurrence) : Option (Location × Option Position) :=
  if o.ancestors.Reached ∧ o.isSimple = true then
    if o.ancestors.isBlock then some (.point o.node.sect.start, none)
    else if o.ancestors.isControlled then some (.point o.node.sect.start, some o.node.sect.stop)
    else none
  else none

end Occurrence

namespace Finder

/-- How a walk comes to a node: not at all, outside running code, or in running code. -/
inductive Situation where
  | skipped
  | resting
  | running (placement : Placement)
deriving DecidableEq, Repr

end Finder

open Finder

namespace Ancestor

/-- The situation behind a function. -/
def behindFunction (a : Ancestor) : Situation := if a.runsFunction then .running .nested else .skipped

/-- The situation behind a node in running code. -/
def behindRunning (a : Ancestor) (placement : Placement) : Situation :=
  match a.node.kind with
  | .constantContext => .skipped
  | .function _ => a.behindFunction
  | .compound => .running .blockItem
  | .container => .running placement
  | .statement kind => if isInert kind then .skipped else .running .nested
  | .control _ => .running (if a.leavesBy [.body, .consequence, .alternative] then .body else .nested)
  | .expression .and | .expression .or | .expression .not =>
    if a.passesOperator then .running .nested else .skipped
  | _ => .running .nested

/-- The situation behind a node, given its own. -/
def behind (a : Ancestor) : Situation → Situation
  | .skipped => .skipped
  | .resting =>
    match a.node.kind with
    | .constantContext => .skipped
    | .function _ => a.behindFunction
    | _ => .resting
  | .running placement => a.behindRunning placement

end Ancestor

namespace Ancestors

def situation : Ancestors → Situation
  | [] => .resting
  | a :: above => a.behind (situation above)

/-- Where a statement stands behind these ancestors. -/
def placement (above : Ancestors) : Placement :=
  if above.isBlock then .blockItem else if above.isControlled then .body else .nested

/-- Neither running code nor constants lie on the way. -/
def AtRest (above : Ancestors) : Prop := ∀ a ∈ above, a.isFunction = false ∧ a.node.kind ≠ .constantContext

instance (above : Ancestors) : Decidable above.AtRest := by unfold AtRest; infer_instance

variable {a : Ancestor} {above : Ancestors}

theorem enclosing?_cons_container (container : a.node.kind = .container) :
    Ancestors.enclosing? (a :: above) = above.enclosing? := by
  simp [enclosing?, container]

theorem enclosing?_cons (other : a.node.kind ≠ .container) : Ancestors.enclosing? (a :: above) = some a := by
  simp [enclosing?, other]

theorem placement_cons (other : a.node.kind ≠ .container) :
    Ancestors.placement (a :: above) = if a.node.kind == .compound then .blockItem
      else if a.isControl && a.leavesBy [.body, .consequence, .alternative] then .body else .nested := by
  simp [placement, isBlock, isControlled, enclosing?_cons other]

theorem any_isFunction (within : ∃ a ∈ above, a.isFunction = true) : above.any Ancestor.isFunction = true :=
  List.any_eq_true.mpr within

theorem AtRest.any_isFunction (atRest : above.AtRest) : above.any Ancestor.isFunction = false := by
  rw [List.any_eq_false]
  intro a member
  simp [(atRest a member).1]

/-- Running code goes on behind an ancestor that is in it if the walk goes through it. -/
theorem reached_cons_of_reached (reached : above.Reached) :
    Ancestors.Reached (a :: above) ↔ (a.isFunction = true → a.runsFunction = true) ∧ a.node.kind ≠ .constantContext ∧
      a.isBarren = false ∧ a.passesOperator = true := by
  have below : Ancestors.belowFunction (a :: above) = a :: above.belowFunction := by
    rw [belowFunction, if_pos (any_isFunction reached.within)]
  constructor
  · rintro ⟨-, functions, varying, fertile, operands⟩
    rw [below] at fertile operands
    exact ⟨functions a List.mem_cons_self, varying a List.mem_cons_self, fertile a List.mem_cons_self,
      operands a List.mem_cons_self⟩
  · rintro ⟨function, varies, fertile, operand⟩
    obtain ⟨b, member, within⟩ := reached.within
    refine ⟨⟨b, List.mem_cons_of_mem _ member, within⟩, List.forall_mem_cons.mpr ⟨function, reached.functions⟩,
      List.forall_mem_cons.mpr ⟨varies, reached.varying⟩, ?_, ?_⟩
    · rw [below]
      exact List.forall_mem_cons.mpr ⟨fertile, reached.fertile⟩
    · rw [below]
      exact List.forall_mem_cons.mpr ⟨operand, reached.operands⟩

/-- The outermost function is where running code begins. -/
theorem reached_cons_of_atRest (atRest : above.AtRest) : Ancestors.Reached (a :: above) ↔ a.runsFunction = true := by
  have below : Ancestors.belowFunction (a :: above) = [] := by
    rw [belowFunction, atRest.any_isFunction]
    rfl
  have runs (function : a.runsFunction = true) : a.node.kind = .function false :=
    beq_iff_eq.mp (Bool.and_eq_true_iff.mp function).1
  constructor
  · rintro ⟨⟨b, member, within⟩, functions, -⟩
    rcases List.mem_cons.mp member with rfl | later
    · exact functions b List.mem_cons_self within
    · simp [(atRest b later).1] at within
  · intro function
    have kind := runs function
    refine ⟨⟨a, List.mem_cons_self, by simp [Ancestor.isFunction, kind]⟩, ?_, ?_, ?_, ?_⟩
    · refine List.forall_mem_cons.mpr ⟨fun _ => function, ?_⟩
      intro b member within
      simp [(atRest b member).1] at within
    · refine List.forall_mem_cons.mpr ⟨by simp [kind], fun b member => (atRest b member).2⟩
    · simp [below]
    · simp [below]

/-- Nothing is reached, nor at rest, behind what is neither. -/
theorem Reached.tail (reached : Ancestors.Reached (a :: above)) : above.Reached ∨ above.AtRest := by
  have varying : ∀ b ∈ above, b.node.kind ≠ .constantContext := fun b member =>
    reached.varying b (List.mem_cons_of_mem _ member)
  cases within : above.any Ancestor.isFunction with
  | true =>
    have below : Ancestors.belowFunction (a :: above) = a :: above.belowFunction := by
      rw [belowFunction, if_pos within]
    have fertile := reached.fertile
    have operands := reached.operands
    rw [below] at fertile operands
    exact Or.inl ⟨List.any_eq_true.mp within, fun b member => reached.functions b (List.mem_cons_of_mem _ member),
      varying, (List.forall_mem_cons.mp fertile).2, (List.forall_mem_cons.mp operands).2⟩
  | false =>
    refine Or.inr fun b member => ⟨?_, varying b member⟩
    simpa using List.any_eq_false.mp within b member

theorem behindRunning_eq (reached : above.Reached) : a.behindRunning above.placement =
    if Ancestors.Reached (a :: above) then .running (Ancestors.placement (a :: above)) else .skipped := by
  simp only [reached_cons_of_reached reached]
  cases kind : a.node.kind with
  | container =>
    have same : Ancestors.placement (a :: above) = above.placement := by
      unfold placement isBlock isControlled
      rw [enclosing?_cons_container kind]
    simp [Ancestor.behindRunning, Ancestor.isFunction, Ancestor.isBarren, Ancestor.passesOperator, kind, same]
  | function constant =>
    rw [placement_cons (by simp [kind])]
    simp [Ancestor.behindRunning, Ancestor.behindFunction, Ancestor.isFunction, Ancestor.isControl, Ancestor.isBarren,
      Ancestor.passesOperator, kind]
  | statement statement =>
    rw [placement_cons (by simp [kind])]
    cases statement with
    | declaration initialized persistent => cases persistent <;>
      simp [Ancestor.behindRunning, Ancestor.isFunction, Ancestor.isControl, Ancestor.isBarren,
        Ancestor.passesOperator, kind, isInert]
    | _ =>
      simp [Ancestor.behindRunning, Ancestor.isFunction, Ancestor.isControl, Ancestor.isBarren,
        Ancestor.passesOperator, kind, isInert]
  | expression expression =>
    rw [placement_cons (by simp [kind])]
    cases expression <;>
      simp [Ancestor.behindRunning, Ancestor.isFunction, Ancestor.isControl, Ancestor.isBarren,
        Ancestor.passesOperator, kind]
  | _ =>
    rw [placement_cons (by simp [kind])]
    simp [Ancestor.behindRunning, Ancestor.isFunction, Ancestor.isControl, Ancestor.isBarren,
      Ancestor.passesOperator, kind]

theorem behind_resting_eq (atRest : above.AtRest) : a.behind .resting =
    if Ancestors.Reached (a :: above) then .running (Ancestors.placement (a :: above))
    else if Ancestors.AtRest (a :: above) then .resting else .skipped := by
  have rest : Ancestors.AtRest (a :: above) ↔ a.isFunction = false ∧ a.node.kind ≠ .constantContext :=
    ⟨fun atRest' => (List.forall_mem_cons.mp atRest').1, fun first => List.forall_mem_cons.mpr ⟨first, atRest⟩⟩
  simp only [reached_cons_of_atRest atRest, rest]
  cases kind : a.node.kind with
  | function constant =>
    rw [placement_cons (by simp [kind])]
    simp [Ancestor.behind, Ancestor.behindFunction, Ancestor.isFunction, Ancestor.isControl, kind]
  | _ => simp [Ancestor.behind, Ancestor.runsFunction, Ancestor.isFunction, kind]

/-- What a walk does at a node, told by its ancestors. -/
theorem situation_eq (above : Ancestors) : above.situation =
    if above.Reached then .running above.placement else if above.AtRest then .resting else .skipped := by
  induction above with
  | nil => rfl
  | cons a above ih =>
    rw [situation, ih]
    by_cases reached : Ancestors.Reached above
    · have busy : ¬ Ancestors.AtRest (a :: above) := by
        intro atRest
        obtain ⟨b, member, function⟩ := reached.within
        simp [(atRest b (List.mem_cons_of_mem _ member)).1] at function
      rw [if_pos reached, if_neg busy]
      exact behindRunning_eq reached
    by_cases atRest : Ancestors.AtRest above
    · rw [if_neg reached, if_pos atRest]
      exact behind_resting_eq atRest
    · have unreached : ¬ Ancestors.Reached (a :: above) := fun reached' => reached'.tail.elim reached atRest
      have busy : ¬ Ancestors.AtRest (a :: above) := fun atRest' => atRest (List.forall_mem_cons.mp atRest').2
      rw [if_neg reached, if_neg atRest, if_neg unreached, if_neg busy]
      rfl

end Ancestors

end SourceCoverage
