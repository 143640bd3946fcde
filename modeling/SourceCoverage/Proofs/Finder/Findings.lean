import Mathlib.Data.List.Forall2
import SourceCoverage.Finder
import SourceCoverage.Proofs.Ledger.Agreement

namespace SourceCoverage.Finder

/-- A marker before it is numbered. -/
inductive Finding where
  | checkpoint (sect : Section) (braced : Bool)
  | evaluation (sect : Section) (kind : EvaluationKind)
deriving DecidableEq, Repr

namespace Finding

def sect : Finding → Section
  | checkpoint sect _ => sect
  | evaluation sect _ => sect

def isCheckpoint : Finding → Bool
  | checkpoint _ _ => true
  | evaluation _ _ => false

def marker (id : MarkerId) : Finding → Marker
  | checkpoint sect braced =>
    { Marker.checkpoint id sect.start with scopeEnd := if braced then some sect.stop else none }
  | evaluation sect kind => Marker.evaluation id sect kind

/-- Two findings that a ledger takes for one. -/
def Clashes : Finding → Finding → Prop
  | checkpoint sect _, checkpoint sect' _ => sect.start = sect'.start
  | evaluation sect kind, evaluation sect' kind' => sect = sect' ∧ kind = kind'
  | _, _ => False

def spot : Finding → Ledger.Spot
  | checkpoint sect _ => .checkpoint sect.start
  | evaluation sect kind => .evaluation sect kind

/-- A ledger takes findings with one spot for one. -/
theorem clashes_iff (f g : Finding) : f.Clashes g ↔ f.spot = g.spot := by
  cases f <;> cases g <;> simp [Clashes, spot]

theorem takes (f : Finding) : f.spot.Takes fun id => f.marker id := by
  cases f with
  | checkpoint sect braced => exact Ledger.takes_checkpoint sect.start (if braced then some sect.stop else none)
  | evaluation sect kind => exact Ledger.takes_evaluation sect kind

/-- The entry of a finding. -/
def Enters (registration : Registration MarkerId) (f : Finding) : Prop :=
  registration.Asks f.spot fun id => f.marker id

theorem enters_checkpoint (sect : Section) (braced : Bool) :
    Enters (Registration.checkpoint sect.start (if braced then some sect.stop else none)) (checkpoint sect braced) :=
  Registration.asks_checkpoint sect.start (if braced then some sect.stop else none)

theorem enters_evaluation (sect : Section) (kind : EvaluationKind) :
    Enters (Registration.evaluation sect kind) (evaluation sect kind) := Registration.asks_evaluation sect kind

end Finding

/-- The findings of the operators and conditions of an expression. -/
def treeFindings (policy : DecisionPolicy) (isRoot : Bool) : DecisionExpr → List Finding
  | .leaf node => [.evaluation node.sect .condition]
  | .not _ operand => treeFindings policy false operand
  | .join _ sect left right =>
    (if !isRoot && policy == .allNodes then [.evaluation sect .decision] else []) ++
      (treeFindings policy false left ++ treeFindings policy false right)

/-- The findings of a decision, given those inside its conditions. -/
def decisionFindings (policy : DecisionPolicy) (expr : DecisionExpr) (inside : List Finding) : List Finding :=
  .evaluation expr.sect .decision :: (treeFindings policy true expr ++ inside)

theorem length_treeFindings_join {policy : DecisionPolicy} (isRoot : Bool) (op : Connective) (sect : Section)
    (left right : DecisionExpr) : (treeFindings policy isRoot (.join op sect left right)).length =
      (if !isRoot && policy == .allNodes then 1 else 0) +
        ((treeFindings policy false left).length + (treeFindings policy false right).length) := by
  rw [treeFindings, List.length_append, List.length_append]
  split <;> rfl

theorem length_decisionFindings (policy : DecisionPolicy) (expr : DecisionExpr) :
    (decisionFindings policy expr []).length = 1 + (treeFindings policy true expr).length := by
  simp [decisionFindings, Nat.add_comm]

mutual

def Step.findings (policy : DecisionPolicy) : Step → List Finding
  | .checkpoint sect braced => [.checkpoint sect braced]
  | .decision expr inside => decisionFindings policy expr (findingsAll policy inside)
  | .visit steps => findingsAll policy steps

def findingsAll (policy : DecisionPolicy) : List Step → List Finding
  | [] => []
  | step :: steps => step.findings policy ++ findingsAll policy steps

end

/-- What is found in a decision comes before what is found inside its conditions. -/
theorem Step.findings_decision (policy : DecisionPolicy) (expr : DecisionExpr) (inside : List Step) :
    (Step.decision expr inside).findings policy = decisionFindings policy expr [] ++ findingsAll policy inside := by
  simp [Step.findings, decisionFindings]

theorem findingsAll_eq_flatMap (policy : DecisionPolicy) (steps : List Step) :
    findingsAll policy steps = steps.flatMap (Step.findings policy) := by
  induction steps with
  | nil => rfl
  | cons step steps ih => rw [findingsAll, ih, List.flatMap_cons]

theorem findingsAll_append (policy : DecisionPolicy) (steps more : List Step) :
    findingsAll policy (steps ++ more) = findingsAll policy steps ++ findingsAll policy more := by
  simp only [findingsAll_eq_flatMap, List.flatMap_append]

/-- The markers are the findings, numbered, in their order. -/
def Records (markers : List Marker) (findings : List Finding) : Prop :=
  List.Forall₂ (fun m f => ∃ id, m = Finding.marker id f) markers findings

namespace Records

variable {markers : List Marker} {ledger : Ledger} {findings : List Finding}

theorem enter (records : Records ledger.markers findings) (f : Finding) :
    Records (ledger.enter f.spot fun id => f.marker id).markers (findings ++ [f]) := by
  rw [Ledger.markers_enter]
  exact List.rel_append records (.cons ⟨_, rfl⟩ .nil)

theorem exists_finding (records : Records markers findings) {m : Marker} (member : m ∈ markers) :
    ∃ f ∈ findings, ∃ id, m = f.marker id := by
  induction records with
  | nil => cases member
  | @cons n f markers findings first _ ih =>
    rcases List.mem_cons.mp member with rfl | later
    · exact ⟨f, List.mem_cons_self, first⟩
    · obtain ⟨g, inside, same⟩ := ih later
      exact ⟨g, List.mem_cons_of_mem _ inside, same⟩

/-- What can be said of any two findings can be said of any two markers that record them. -/
theorem pairwise (records : Records markers findings) {R : Finding → Finding → Prop} (pairs : findings.Pairwise R) :
    markers.Pairwise fun m n => ∃ f g id id', R f g ∧ m = f.marker id ∧ n = g.marker id' := by
  induction records with
  | nil => exact .nil
  | @cons m f markers findings first rest ih =>
    obtain ⟨ahead, pairs⟩ := List.pairwise_cons.mp pairs
    refine .cons ?_ (ih pairs)
    intro n member
    obtain ⟨id, same⟩ := first
    obtain ⟨g, inside, id', same'⟩ := exists_finding rest member
    exact ⟨f, g, id, id', ahead g inside, same, same'⟩

/-- A place that no finding claims is free. -/
theorem free (records : Records ledger.markers findings) (agrees : ledger.Agrees) {f : Finding}
    (apart : ∀ g ∈ findings, ¬ g.Clashes f) : ledger.number? f.spot = none := by
  rw [agrees.number?_eq_none_iff]
  intro m member same
  obtain ⟨g, inside, id, rfl⟩ := records.exists_finding member
  rw [g.takes.spot id] at same
  exact apart g inside ((g.clashes_iff f).mpr (Option.some.inj same))

end Records

/-- No two findings claim the same place. -/
def Distinct (findings : List Finding) : Prop := findings.Pairwise fun f g => ¬ f.Clashes g

theorem Distinct.free {findings others : List Finding} {f : Finding} (distinct : Distinct (findings ++ f :: others)) :
    (∀ g ∈ findings, ¬ g.Clashes f) ∧ Distinct ((findings ++ [f]) ++ others) := by
  refine ⟨fun g member => ?_, by rwa [List.append_assoc]⟩
  exact (List.pairwise_append.mp distinct).2.2 g member f List.mem_cons_self

theorem Distinct.left {findings others : List Finding} (distinct : Distinct (findings ++ others)) :
    Distinct findings := (List.pairwise_append.mp distinct).1

/-- If the places found for an operator are distinct, so are those found for each of its operands. -/
theorem Distinct.operands {own left right insideLeft insideRight : List Finding}
    (distinct : Distinct (own ++ (left ++ right) ++ (insideLeft ++ insideRight))) :
    Distinct (left ++ insideLeft) ∧ Distinct (right ++ insideRight) := by
  refine ⟨distinct.sublist (.append (.trans ?_ (List.sublist_append_right _ _)) (List.sublist_append_left _ _)),
    distinct.sublist (.append (.trans ?_ (List.sublist_append_right _ _)) (List.sublist_append_right _ _))⟩
  · exact List.sublist_append_left _ _
  · exact List.sublist_append_right _ _

/-- Enters the findings into every ledger in which their places are free. -/
def Registers {α : Type} (registration : Registration α) (findings : List Finding) : Prop :=
  ∀ ledger before, ledger.Agrees → Records ledger.markers before → Distinct (before ++ findings) →
    ∃ result ledger', registration.run ledger = (.ok result, ledger') ∧ ledger'.Agrees ∧
      Records ledger'.markers (before ++ findings)

theorem registers_pure {α : Type} (result : α) : Registers (pure result) [] := by
  intro ledger before agrees records _
  exact ⟨result, ledger, rfl, agrees, by rwa [List.append_nil]⟩

theorem registers_bind {α β : Type} {first : Registration α} {next : α → Registration β}
    {findings others : List Finding} (registers : Registers first findings)
    (registers' : ∀ result, Registers (next result) others) :
    Registers (first >>= next) (findings ++ others) := by
  intro ledger before agrees records distinct
  rw [← List.append_assoc] at distinct ⊢
  obtain ⟨result, ledger', run, agrees', records'⟩ := registers ledger before agrees records distinct.left
  obtain ⟨result', ledger'', run', entered⟩ := registers' result ledger' _ agrees' records' distinct
  exact ⟨result', ledger'', (Registration.run_bind_of_ok run).trans run', entered⟩

theorem Finding.Enters.registers {registration : Registration MarkerId} {f : Finding}
    (enters : f.Enters registration) :
    Registers registration [f] := by
  intro ledger before agrees records distinct
  have free := records.free agrees distinct.free.1
  exact ⟨_, _, enters.free ledger free, agrees.enter f.takes free, records.enter f⟩

theorem registers_evaluation (sect : Section) (kind : EvaluationKind) :
    Registers (Registration.evaluation sect kind) [.evaluation sect kind] :=
  (Finding.enters_evaluation sect kind).registers

theorem registers_record (decision : Decision) : Registers (Registration.record decision) [] := by
  intro ledger before agrees records _
  exact ⟨(), _, rfl, agrees.record _, by rwa [List.append_nil]⟩

theorem registers_operator (policy : DecisionPolicy) (isRoot : Bool) (sect : Section) :
    Registers (Registration.operator policy isRoot sect)
      (if !isRoot && policy == .allNodes then [.evaluation sect .decision] else []) := by
  unfold Registration.operator
  split
  · exact registers_bind (registers_evaluation sect .decision) fun _ => registers_pure _
  · exact registers_pure none

theorem registers_tree (policy : DecisionPolicy) (isRoot : Bool) (expr : DecisionExpr)
    (leaves : List SyntaxNode) :
    Registers (Registration.tree policy isRoot expr leaves) (treeFindings policy isRoot expr) := by
  induction expr generalizing isRoot leaves with
  | leaf node =>
    unfold Registration.tree
    exact registers_bind (registers_evaluation node.sect .condition) fun _ => registers_pure _
  | not sect operand ih =>
    unfold Registration.tree treeFindings
    rw [← List.append_nil (treeFindings policy false operand)]
    exact registers_bind (ih false leaves) fun _ => registers_pure _
  | join op sect left right leftIh rightIh =>
    unfold Registration.tree treeFindings
    rw [← List.append_nil (treeFindings policy false right)]
    exact registers_bind (registers_operator policy isRoot sect) fun _ =>
      registers_bind (leftIh false leaves) fun _ =>
      registers_bind (rightIh false _) fun _ => registers_pure _

theorem registers_decision (policy : DecisionPolicy) (expr : DecisionExpr) :
    Registers (Registration.decision policy expr) (decisionFindings policy expr []) := by
  unfold Registration.decision
  change Registers _ ([.evaluation expr.sect .decision] ++ (treeFindings policy true expr ++ ([] ++ [])))
  exact registers_bind (registers_evaluation expr.sect .decision) fun _ =>
    registers_bind (registers_tree policy true expr []) fun _ =>
      registers_bind (registers_record _) fun _ => registers_pure _

mutual

/-- A step whose findings have free places succeeds and enters them. -/
theorem run_step {policy : DecisionPolicy} (step : Step) {walk : Walk} {before : List Finding}
    (going : walk.failure = none) (agrees : walk.ledger.Agrees) (records : Records walk.ledger.markers before)
    (distinct : Distinct (before ++ step.findings policy)) :
    (step.run policy walk).failure = none ∧ (step.run policy walk).ledger.Agrees ∧
      Records (step.run policy walk).ledger.markers (before ++ step.findings policy) := by
  match step with
  | .checkpoint sect braced =>
    rw [Step.findings] at distinct ⊢
    obtain ⟨id, ledger', added, entered⟩ :=
      (Finding.enters_checkpoint sect braced).registers walk.ledger before agrees records distinct
    rw [Step.run, added]
    exact ⟨going, entered⟩
  | .decision expr inside =>
    rw [Step.findings_decision, ← List.append_assoc] at distinct ⊢
    obtain ⟨decision, ledger', entered, agrees', records'⟩ :=
      registers_decision policy expr walk.ledger before agrees records distinct.left
    rw [Step.run, entered]
    exact run_steps inside going agrees' records' distinct
  | .visit steps =>
    rw [Step.findings] at distinct ⊢
    rw [Step.run, going]
    exact run_steps steps going agrees records distinct

theorem run_steps {policy : DecisionPolicy} (steps : List Step) {walk : Walk} {before : List Finding}
    (going : walk.failure = none) (agrees : walk.ledger.Agrees) (records : Records walk.ledger.markers before)
    (distinct : Distinct (before ++ findingsAll policy steps)) :
    (runAll policy steps walk).failure = none ∧ (runAll policy steps walk).ledger.Agrees ∧
      Records (runAll policy steps walk).ledger.markers (before ++ findingsAll policy steps) := by
  match steps with
  | [] =>
    rw [runAll, findingsAll, List.append_nil]
    exact ⟨going, agrees, records⟩
  | step :: steps =>
    rw [findingsAll, ← List.append_assoc] at distinct ⊢
    obtain ⟨going', agrees', records'⟩ := run_step step going agrees records distinct.left
    rw [runAll]
    exact run_steps steps going' agrees' records' distinct

end

end SourceCoverage.Finder
