import SourceCoverage.Decision.Registration
import SourceCoverage.Probe
import SourceCoverage.Sha256

namespace SourceCoverage

structure Settings where
  force : Bool := false
  verbosity : Nat := 0
  outputDir : Path := ⟨".coveron"⟩
  /-- The compiler that is started after instrumentation, if any. -/
  compiler : Option String := none
  /-- Passed to the compiler, and consulted for the dialect. -/
  compilerArgs : List String := []
  parallel : Bool := true
  /-- Number of workers; zero leaves the choice to the machine. -/
  jobs : Nat := 0
  decisionPolicy : DecisionPolicy := .leaves
  probes : ProbeNames := {}
  runtimeHeader : Path := ⟨"coveron_helper.h"⟩
  runtimeSource : Path := ⟨"coveron_helper.c"⟩
  compressDocument : Bool := false
deriving DecidableEq, Repr

/-- The probe names that a settings file gives. -/
structure ProbeOverrides where
  checkpoint : Option String := none
  evaluation : Option String := none
deriving DecidableEq, Repr

/-- What a settings file sets. -/
structure Overrides where
  outputDir : Option Path := none
  compiler : Option String := none
  compilerArgs : Option (List String) := none
  parallel : Option Bool := none
  jobs : Option Nat := none
  decisionPolicy : Option DecisionPolicy := none
  runtimeHeader : Option Path := none
  runtimeSource : Option Path := none
  compressDocument : Option Bool := none
  probes : Option ProbeOverrides := none
deriving DecidableEq, Repr

def ProbeNames.override (names : ProbeNames) (given : ProbeOverrides) : ProbeNames where
  checkpoint := given.checkpoint.getD names.checkpoint
  evaluation := given.evaluation.getD names.evaluation

def DecisionPolicy.text : DecisionPolicy → String
  | .leaves => "leaves"
  | .allNodes => "all-nodes"

namespace Settings

/-- The settings with what a file sets put in their place. -/
def override (s : Settings) (given : Overrides) : Settings where
  force := s.force
  verbosity := s.verbosity
  outputDir := given.outputDir.getD s.outputDir
  compiler := given.compiler.or s.compiler
  compilerArgs := given.compilerArgs.getD s.compilerArgs
  parallel := given.parallel.getD s.parallel
  jobs := given.jobs.getD s.jobs
  decisionPolicy := given.decisionPolicy.getD s.decisionPolicy
  probes := s.probes.override (given.probes.getD {})
  runtimeHeader := given.runtimeHeader.getD s.runtimeHeader
  runtimeSource := given.runtimeSource.getD s.runtimeSource
  compressDocument := given.compressDocument.getD s.compressDocument

def policyName : DecisionPolicy → String
  | .leaves => "Leaves"
  | .allNodes => "AllNodes"

def dialectName : Dialect → String
  | .c => "C"
  | .cpp => "Cpp"

/-- The settings that shape the instrumented text of a file, one on a line. -/
def fingerprintText (s : Settings) (input : Path) : String :=
  s!"checkpoint={s.probes.checkpoint}\nevaluation={s.probes.evaluation}\n" ++
    s!"policy={policyName s.decisionPolicy}\nheader={s.runtimeHeader.text}\n" ++
    s!"dialect={dialectName (Dialect.choose input s.compilerArgs)}\n"

/-- A document made under other settings has another fingerprint. -/
def fingerprint (s : Settings) (input : Path) : String :=
  Sha256.digest (Utf8.encode (s.fingerprintText input))

end Settings

end SourceCoverage
