import SourceCoverage.Finder
import SourceCoverage.Proofs.Ledger.Agreement

namespace SourceCoverage.Finder

variable {policy : DecisionPolicy}

mutual

theorem agrees_step (step : Step) {walk : Walk} (agrees : walk.ledger.Agrees) :
    (step.run policy walk).ledger.Agrees := by
  match step with
  | .checkpoint sect braced =>
    have agrees' := Registration.keepsAgreement_checkpoint sect.start (if braced then some sect.stop else none)
      walk.ledger agrees
    rw [Step.run]
    split
    · rename_i id ledger' added
      rw [added] at agrees'
      exact agrees'
    · rename_i duplicate ledger' refused
      rw [refused] at agrees'
      exact agrees'
  | .decision expr inside =>
    have agrees' := Registration.keepsAgreement_decision policy expr walk.ledger agrees
    rw [Step.run]
    split
    · rename_i decision ledger' entered
      rw [entered] at agrees'
      exact agrees_steps inside agrees'
    · rename_i duplicate ledger' refused
      rw [refused] at agrees'
      exact agrees'
  | .visit steps =>
    rw [Step.run]
    split
    · exact agrees
    · exact agrees_steps steps agrees

/-- Whether or not steps fail, counter, markers and look-ups agree after them. -/
theorem agrees_steps (steps : List Step) {walk : Walk} (agrees : walk.ledger.Agrees) :
    (runAll policy steps walk).ledger.Agrees := by
  match steps with
  | [] => exact agrees
  | step :: steps =>
    rw [runAll]
    exact agrees_steps steps (agrees_step step agrees)

end

theorem agrees_walk (policy : DecisionPolicy) (root : SyntaxNode) (hash : String) :
    (walk policy root { sourceHash := hash }).ledger.Agrees := agrees_step _ (Ledger.agrees_empty hash)

end SourceCoverage.Finder
