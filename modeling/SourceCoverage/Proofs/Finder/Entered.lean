import SourceCoverage.Proofs.Finder.Agreement
import SourceCoverage.Proofs.Finder.Nodes

namespace SourceCoverage

open Finder

/-- Findings as markers, the first with the number after `count`. -/
def Finder.numbered (count : Nat) (findings : List Finding) : List Marker :=
  (findings.zipIdx count).map fun (f, before) => f.marker (before + 1).toUInt32

theorem Finder.numbered_append (count : Nat) (findings others : List Finding) :
    numbered count (findings ++ others) = numbered count findings ++ numbered (count + findings.length) others := by
  rw [numbered, List.zipIdx_append, List.map_append]
  rfl

theorem Finder.length_numbered (count : Nat) (findings : List Finding) :
    (numbered count findings).length = findings.length := by
  rw [numbered, List.length_map, List.length_zipIdx]

namespace Ledger

/-- The second ledger is the first with findings and decisions entered. -/
structure Grows (ledger : Ledger) (findings : List Finding) (decisions : List Decision) (ledger' : Ledger) :
    Prop where
  hash : ledger'.sourceHash = ledger.sourceHash
  markers : ledger'.markers = ledger.markers ++ numbered ledger.markers.length findings
  decisions : ledger'.decisions = ledger.decisions ++ decisions
  agrees : ledger'.Agrees

variable {ledger ledger' ledger'' : Ledger} {findings others : List Finding} {decisions records : List Decision}

theorem Grows.refl (agrees : ledger.Agrees) : ledger.Grows [] [] ledger :=
  ⟨rfl, (List.append_nil _).symm, (List.append_nil _).symm, agrees⟩

theorem Grows.length (grows : ledger.Grows findings decisions ledger') :
    ledger'.markers.length = ledger.markers.length + findings.length := by
  rw [grows.markers, List.length_append, length_numbered]

theorem Grows.trans (first : ledger.Grows findings decisions ledger')
    (second : ledger'.Grows others records ledger'') :
    ledger.Grows (findings ++ others) (decisions ++ records) ledger'' := by
  refine ⟨second.hash.trans first.hash, ?_, ?_, second.agrees⟩
  · rw [second.markers, first.length, first.markers, numbered_append, List.append_assoc]
  · rw [second.decisions, first.decisions, List.append_assoc]

/-- A marker on a free spot gets the number after those that are there. -/
theorem grows_enter (agrees : ledger.Agrees) {f : Finding} (free : ledger.number? f.spot = none) :
    ledger.Grows [f] [] (ledger.enter f.spot fun id => f.marker id) := by
  refine ⟨ledger.sourceHash_enter _ _, ?_, ?_, agrees.enter f.takes free⟩
  · rw [markers_enter, agrees.next]
    rfl
  · rw [decisions_enter, List.append_nil]

end Ledger

namespace Finder

/-- Entries that, whenever they succeed with `count` markers before, enter these findings and decisions and give
this result. -/
def Yields {α : Type} (registration : Registration α) (count : Nat) (findings : List Finding)
    (decisions : List Decision) (result : α) : Prop :=
  ∀ ledger, ledger.Agrees → ledger.markers.length = count → ∀ value ledger',
    registration.run ledger = (.ok value, ledger') → value = result ∧ ledger.Grows findings decisions ledger'

section Yields

variable {α β : Type} {first : Registration α} {next : α → Registration β} {count : Nat}
  {findings others : List Finding} {decisions records : List Decision} {result : α} {last : β}

theorem yields_pure (value : α) (count : Nat) : Yields (pure value) count [] [] value := by
  rintro ledger agrees - value' ledger' run
  cases run
  exact ⟨rfl, .refl agrees⟩

theorem yields_bind (yields : Yields first count findings decisions result)
    (yields' : Yields (next result) (count + findings.length) others records last) :
    Yields (first >>= next) count (findings ++ others) (decisions ++ records) last := by
  intro ledger agrees length value ledger' run
  cases begun : first.run ledger with
  | mk outcome between =>
    cases outcome with
    | error duplicate =>
      rw [Registration.run_bind_of_error begun] at run
      cases run
    | ok middle =>
      rw [Registration.run_bind_of_ok begun] at run
      obtain ⟨rfl, grows⟩ := yields ledger agrees length middle between begun
      obtain ⟨same, grows'⟩ := yields' between grows.agrees (by rw [grows.length, length]) value ledger' run
      exact ⟨same, grows.trans grows'⟩

end Yields

theorem Finding.Enters.yields {registration : Registration MarkerId} {f : Finding} (enters : f.Enters registration)
    (count : Nat) : Yields registration count [f] [] (count + 1).toUInt32 := by
  rintro ledger agrees rfl value ledger' run
  cases found : ledger.number? f.spot with
  | none =>
    rw [enters.free ledger found] at run
    cases run
    exact ⟨agrees.next, Ledger.grows_enter agrees found⟩
  | some existing =>
    rw [enters.taken ledger existing found] at run
    cases run

theorem yields_evaluation (sect : Section) (kind : EvaluationKind) (count : Nat) :
    Yields (Registration.evaluation sect kind) count [.evaluation sect kind] [] (count + 1).toUInt32 :=
  (Finding.enters_evaluation sect kind).yields count

theorem yields_record (decision : Decision) (count : Nat) :
    Yields (Registration.record decision) count [] [decision] () := by
  rintro ledger agrees - value ledger' run
  cases run
  exact ⟨rfl, rfl, (List.append_nil _).symm, rfl, agrees.record _⟩

theorem yields_operator (policy : DecisionPolicy) (isRoot : Bool) (sect : Section) (count : Nat) :
    Yields (Registration.operator policy isRoot sect) count
      (if !isRoot && policy == .allNodes then [.evaluation sect .decision] else []) []
      (if !isRoot && policy == .allNodes then some (count + 1).toUInt32 else none) := by
  unfold Registration.operator
  split
  · exact yields_bind (yields_evaluation sect .decision count) (yields_pure _ _)
  · exact yields_pure none count

/-- The tree of an expression whose markers are numbered in their order, from the number after `count` on. -/
def treeOf (policy : DecisionPolicy) (isRoot : Bool) (count : Nat) : DecisionExpr → ConditionTree
  | .leaf _ => .condition (count + 1).toUInt32
  | .not _ operand => .not (treeOf policy false count operand)
  | .join op _ left right =>
    let first := if !isRoot && policy == .allNodes then count + 1 else count
    .join op (treeOf policy false first left)
      (treeOf policy false (first + (treeFindings policy false left).length) right)
      (if !isRoot && policy == .allNodes then some (count + 1).toUInt32 else none)

theorem yields_tree (policy : DecisionPolicy) (isRoot : Bool) (expr : DecisionExpr) (leaves : List SyntaxNode)
    (count : Nat) :
    Yields (Registration.tree policy isRoot expr leaves) count (treeFindings policy isRoot expr) []
      (treeOf policy isRoot count expr, leaves ++ expr.leaves) := by
  induction expr generalizing isRoot leaves count with
  | leaf node =>
    unfold Registration.tree
    exact yields_bind (yields_evaluation node.sect .condition count) (yields_pure _ _)
  | not sect operand ih =>
    unfold Registration.tree treeFindings
    rw [← List.append_nil (treeFindings policy false operand)]
    exact yields_bind (ih false leaves count) (yields_pure _ _)
  | join op sect left right leftIh rightIh =>
    unfold Registration.tree treeFindings
    rw [← List.append_nil (treeFindings policy false right)]
    have length : count + (if !isRoot && policy == .allNodes then [Finding.evaluation sect .decision]
      else []).length =
        if !isRoot && policy == .allNodes then count + 1 else count := by
      split <;> rfl
    refine yields_bind (yields_operator policy isRoot sect count) ?_
    rw [length, DecisionExpr.leaves, ← List.append_assoc leaves]
    refine yields_bind (leftIh false leaves _) ?_
    exact yields_bind (rightIh false (leaves ++ left.leaves) _) (yields_pure _ _)

/-- The record of a decision that is entered after `count` markers. -/
def decisionOf (policy : DecisionPolicy) (count : Nat) (expr : DecisionExpr) : Decision :=
  ⟨(count + 1).toUInt32, treeOf policy true (count + 1) expr⟩

theorem yields_decision (policy : DecisionPolicy) (expr : DecisionExpr) (count : Nat) :
    Yields (Registration.decision policy expr) count (decisionFindings policy expr [])
      [decisionOf policy count expr] ⟨decisionOf policy count expr, expr.leaves⟩ := by
  unfold Registration.decision
  change Yields _ count ([.evaluation expr.sect .decision] ++ (treeFindings policy true expr ++ ([] ++ [])))
    ([] ++ ([] ++ ([decisionOf policy count expr] ++ []))) _
  exact yields_bind (yields_evaluation expr.sect .decision count) (yields_bind (yields_tree policy true expr [] _)
    (yields_bind (yields_record _ _) (yields_pure _ _)))

mutual

/-- The decisions that a step enters after `count` markers. -/
def Step.decisions (policy : DecisionPolicy) (count : Nat) : Step → List Decision
  | .checkpoint _ _ => []
  | .decision expr inside =>
    decisionOf policy count expr :: decisionsAll policy (count + (decisionFindings policy expr []).length) inside
  | .visit steps => decisionsAll policy count steps

def decisionsAll (policy : DecisionPolicy) (count : Nat) : List Step → List Decision
  | [] => []
  | step :: steps =>
    step.decisions policy count ++ decisionsAll policy (count + (step.findings policy).length) steps

end

/-- The second walk is the first gone on without a failure, with findings and decisions entered and counted. -/
structure Walk.GoesOn (walk : Walk) (findings : List Finding) (decisions : List Decision) (walk' : Walk) : Prop where
  going : walk.failure = none
  grows : walk.ledger.Grows findings decisions walk'.ledger
  checkpoints : walk'.checkpoints = walk.checkpoints + findings.countP Finding.isCheckpoint
  decisions : walk'.decisions = walk.decisions + decisions.length

theorem Walk.GoesOn.trans {walk walk' walk'' : Walk} {findings others : List Finding}
    {decisions records : List Decision} (first : walk.GoesOn findings decisions walk')
    (second : walk'.GoesOn others records walk'') :
    walk.GoesOn (findings ++ others) (decisions ++ records) walk'' := by
  refine ⟨first.going, first.grows.trans second.grows, ?_, ?_⟩
  · rw [second.checkpoints, first.checkpoints, List.countP_append, Nat.add_assoc]
  · rw [second.decisions, first.decisions, List.length_append, Nat.add_assoc]

theorem Walk.failure_fail (walk : Walk) (duplicate : Duplicate) : (walk.fail duplicate).failure ≠ none := by
  cases failure : walk.failure <;> simp [Walk.fail, failure]

theorem countP_treeFindings (policy : DecisionPolicy) (isRoot : Bool) (expr : DecisionExpr) :
    (treeFindings policy isRoot expr).countP Finding.isCheckpoint = 0 := by
  induction expr generalizing isRoot with
  | leaf node => rfl
  | not sect operand ih => exact ih false
  | join op sect left right leftIh rightIh =>
    rw [treeFindings, List.countP_append, List.countP_append, leftIh, rightIh]
    split <;> rfl

mutual

/-- A step after which there is no failure has succeeded. -/
theorem goesOn_step {policy : DecisionPolicy} (step : Step) {walk : Walk} (agrees : walk.ledger.Agrees)
    (success : (step.run policy walk).failure = none) :
    walk.GoesOn (step.findings policy) (step.decisions policy walk.ledger.markers.length) (step.run policy walk) := by
  match step with
  | .checkpoint sect braced =>
    rw [Step.run] at success ⊢
    split at success
    · rename_i id ledger' added
      obtain ⟨-, grows⟩ := (Finding.enters_checkpoint sect braced).yields _ walk.ledger agrees rfl id ledger' added
      exact ⟨success, grows, rfl, rfl⟩
    · exact absurd success (Walk.failure_fail _ _)
  | .decision expr inside =>
    rw [Step.run] at success ⊢
    split at success
    · rename_i decision ledger' entered
      obtain ⟨-, grows⟩ := yields_decision policy expr _ walk.ledger agrees rfl decision ledger' entered
      have inner := goesOn_steps inside grows.agrees success
      have first : walk.GoesOn (decisionFindings policy expr []) [decisionOf policy walk.ledger.markers.length expr]
          { walk with ledger := ledger', decisions := walk.decisions + 1 } := by
        refine ⟨inner.going, grows, ?_, rfl⟩
        simp [decisionFindings, countP_treeFindings, Finding.isCheckpoint]
      rw [Step.findings_decision, Step.decisions, ← grows.length]
      exact first.trans inner
    · exact absurd success (Walk.failure_fail _ _)
  | .visit steps =>
    rw [Step.run] at success ⊢
    split at success
    · rename_i failed
      rw [success] at failed
      cases failed
    · rename_i going
      rw [if_neg going, Step.findings, Step.decisions]
      exact goesOn_steps steps agrees success

theorem goesOn_steps {policy : DecisionPolicy} (steps : List Step) {walk : Walk} (agrees : walk.ledger.Agrees)
    (success : (runAll policy steps walk).failure = none) :
    walk.GoesOn (findingsAll policy steps) (decisionsAll policy walk.ledger.markers.length steps)
      (runAll policy steps walk) := by
  match steps with
  | [] => exact ⟨success, .refl agrees, rfl, rfl⟩
  | step :: steps =>
    rw [runAll] at success ⊢
    have rest := goesOn_steps steps (agrees_step step agrees) success
    have first := goesOn_step step agrees rest.going
    rw [findingsAll, decisionsAll, ← first.grows.length]
    exact first.trans rest

end

/-- What is entered into a fresh ledger by a walk that fails nowhere. -/
theorem goesOn_walk {policy : DecisionPolicy} {root : SyntaxNode} {hash : String}
    (success : (walk policy root { sourceHash := hash }).failure = none) :
    ({ ledger := { sourceHash := hash } } : Walk).GoesOn (nodeFindings policy false .nested root)
      (decisionsAll policy 0 ((visits root).asNode false .nested)) (walk policy root { sourceHash := hash }) :=
  goesOn_step _ (Ledger.agrees_empty hash) success

/-- A ledger takes no two findings that clash. -/
theorem distinct_of_grows {hash : String} {ledger : Ledger} {findings : List Finding} {decisions : List Decision}
    (grows : ({ sourceHash := hash } : Ledger).Grows findings decisions ledger) : Distinct findings := by
  have spots : (numbered 0 findings).Pairwise fun m n => m.spot? ≠ n.spot? := by
    have spots := grows.agrees.spots
    rwa [grows.markers] at spots
  have pairs := List.pairwise_map.mp spots
  rw [Distinct, ← List.zipIdx_map_fst 0 findings, List.pairwise_map]
  refine pairs.imp ?_
  rintro ⟨f, before⟩ ⟨g, before'⟩ apart clashes
  rw [f.takes.spot, g.takes.spot, (f.clashes_iff g).mp clashes] at apart
  exact apart rfl

/-- So a walk that fails nowhere has found none. -/
theorem distinct_of_walk {policy : DecisionPolicy} {root : SyntaxNode} {hash : String}
    (success : (walk policy root { sourceHash := hash }).failure = none) :
    Distinct (nodeFindings policy false .nested root) := distinct_of_grows (goesOn_walk success).grows

end Finder

end SourceCoverage
