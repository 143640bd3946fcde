import SourceCoverage.Failure
import SourceCoverage.Octets

namespace SourceCoverage

/-- How a started program ended. -/
inductive ExitStatus where
  | code (value : Nat)
  | signal (value : Nat) (name : String)
deriving DecidableEq, Repr

def ExitStatus.isSuccess : ExitStatus → Bool
  | code 0 => true
  | _ => false

def ExitStatus.text : ExitStatus → String
  | code value => s!"exit status: {value}"
  | signal value name => s!"signal: {value} ({name})"

inductive Action where
  | read (path : Path)
  | write (path : Path) (contents : Octets)
  /-- Puts a file in the place of another. -/
  | rename (source target : Path)
  | remove (path : Path)
  | makeDirectory (path : Path)
  | isFile (path : Path)
  | isDirectory (path : Path)
  | isPresent (path : Path)
  | workingDirectory
  /-- Three numbers, joined by dots, that were not given before. -/
  | freshTag
  | print (text : Octets)
  | start (program : String) (arguments : List String)
deriving DecidableEq, Repr

/-- What an action gives back. -/
@[reducible] def Action.Answer : Action → Type
  | read _ => Except FileError Octets
  | write _ _ | rename _ _ | remove _ | makeDirectory _ => Except FileError Unit
  | isFile _ | isDirectory _ | isPresent _ => Bool
  | workingDirectory => Except FileError Path
  | freshTag => String
  | print _ => Unit
  | start _ _ => Except FileError ExitStatus

inductive Script (α : Type) where
  | done (value : α)
  | act (action : Action) (next : action.Answer → Script α)

namespace Script

def bind {α β : Type} : Script α → (α → Script β) → Script β
  | done value, f => f value
  | act action next, f => act action fun answer => (next answer).bind f

instance : Monad Script where
  pure := done
  bind := bind

/-- The script of one action. -/
def perform (action : Action) : Script action.Answer := act action done

/-- Runs a script, `step` saying what each action does to a state. -/
def run {σ α : Type} (step : (action : Action) → σ → action.Answer × σ) : Script α → σ → α × σ
  | done value, state => (value, state)
  | act action next, state =>
    let (answer, after) := step action state
    (next answer).run step after

end Script

/-- A script that may fail. -/
abbrev Attempt (ε α : Type) := ExceptT ε Script α

namespace Attempt

/-- Tells a failure in other words. -/
def mapError {ε δ α : Type} (f : ε → δ) (attempt : Attempt ε α) : Attempt δ α := ExceptT.adapt f attempt

/-- The script that gives the outcome as a value. -/
def outcome {ε α : Type} (attempt : Attempt ε α) : Script (Except ε α) := ExceptT.run attempt

def ofExcept {ε α : Type} (result : Except ε α) : Attempt ε α := ExceptT.mk (pure result)

/-- An attempt whose failure is only seen. -/
def tried {ε δ α : Type} (attempt : Attempt ε α) : Attempt δ (Except ε α) := ExceptT.lift attempt.outcome

end Attempt

end SourceCoverage
