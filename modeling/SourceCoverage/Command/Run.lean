import SourceCoverage.Command.Line
import SourceCoverage.Compilation
import SourceCoverage.Report
import SourceCoverage.Settings.Lookup
import SourceCoverage.Stripping

namespace SourceCoverage

/-- What went wrong at the end of a chain. -/
inductive Cause where
  | failure (failure : Failure)
  | unclosed (unclosed : Unclosed)
  | file (error : FileError)
deriving DecidableEq, Repr

structure CommandError where
  /-- What was attempted, from the outside in. -/
  attempted : List String := []
  cause : Option Cause := none
deriving DecidableEq, Repr

namespace Cause

/-- A failed file operation is named in the failure and once more as its cause. -/
def texts : Cause → List String
  | failure f => f.message :: (f.fileError?.map FileError.message).toList
  | unclosed u => [u.message]
  | file e => [e.message]

end Cause

namespace CommandError

def ofFailure (failure : Failure) : CommandError := { cause := some (.failure failure) }

def plain (text : String) : CommandError := { attempted := [text] }

def message (e : CommandError) : String :=
  ": ".intercalate (e.attempted ++ (e.cause.map Cause.texts).getD [])

end CommandError

namespace Command

/-- Instruments all sources, and compiles them if a compiler is set and no file failed. -/
def runInstrument (codec : Codec) (grammar : Grammar) (colored : Bool) (request : InstrumentRequest) :
    Attempt CommandError RunSummary := do
  let given ← (Overrides.load codec request.settingsFile).mapError .ofFailure
  let settings := request.settings given
  (Staging.ensureDirectory settings.outputDir).mapError .ofFailure
  let directory ← (Script.perform .workingDirectory : Script (Except FileError Path))
  let files := SourceFile.plan directory.toOption settings request.sources
  let reports ← passAll codec grammar settings colored files
  let summary := RunSummary.ofReports reports
  Script.printLine summary.text
  if summary.hasFailures then throw (.plain s!"{summary.failed} of {summary.total} files failed")
  match settings.compiler with
  | none => return summary
  | some program =>
    let job := CompileJob.ofFiles program settings.compilerArgs files settings.runtimeSource
    job.run.mapError fun failure =>
      { attempted := ["Compilation of instrumented sources failed"], cause := some (.failure failure) }
    return summary

/-- The text of an instrumented file without its probes. -/
def stripFile (path : Path) (probes : Probes) : Attempt CommandError Octets := do
  let source ← (readSource path).mapError .ofFailure
  match SourceCoverage.strip probes source with
  | .ok text => return text
  | .error u => throw { attempted := [s!"Failed to strip {path.text}"], cause := some (.unclosed u) }

/-- Replaces a file, naming it if that fails. -/
def writeOutput (path : Path) (contents : Octets) : Attempt CommandError Unit :=
  (Staging.replace path contents).mapError fun e =>
    { attempted := [s!"Failed to write {path.text}"], cause := some (.file e) }

/-- Restores a source that was instrumented in a dialect, to a file or to the output. -/
def restore (codec : Codec) (request : StripRequest) (dialect : Dialect) : Attempt CommandError Unit := do
  let given ← (Overrides.load codec request.settingsFile).mapError .ofFailure
  let names := (({} : Settings).override given).probes
  let restored ← stripFile request.file ⟨names, dialect⟩
  match request.output with
  | some output => writeOutput output restored
  | none => Script.perform (.print restored)

def runStrip (codec : Codec) (request : StripRequest) : Attempt CommandError Unit :=
  restore codec request request.dialect

/-- The lines of the settings file that a new project starts with. -/
def defaultLines : List String :=
  ["# Coveron configuration",
   "",
   "# Where instrumented sources and CID files are written",
   "output_dir = \".coveron\"",
   "",
   "# Which decision nodes get evaluation markers: \"leaves\" or \"all-nodes\"",
   "decision_policy = \"leaves\"",
   "",
   "# Header included by every instrumented file",
   "runtime_header = \"coveron_helper.h\"",
   "",
   "# Runtime helper compiled together with the instrumented sources",
   "runtime_source = \"coveron_helper.c\"",
   "",
   "# Write CID files gzip-compressed",
   "compress_cid = false",
   "",
   "# Instrument files on all cores; set jobs to limit the worker count",
   "parallel = true",
   "# jobs = 4",
   "",
   "# Compiler run after instrumentation, with these arguments",
   "# compiler = \"cc\"",
   "# compiler_args = [\"-O0\", \"-g\"]",
   "",
   "[probes]",
   "checkpoint = \"__coveron_checkpoint\"",
   "evaluation = \"__coveron_evaluation\""]

/-- Every line ends in a line end, the last one too. -/
def defaultSettings : String := String.join (defaultLines.map (· ++ "\n"))

/-- Writes the default settings file into a directory. -/
def initialiseIn (directory : Path) (force : Bool) : Attempt CommandError Path := do
  let path := directory.join ⟨Settings.fileName⟩
  if !force then
    if ← Script.perform (.isPresent path) then
      throw (.plain "Configuration file already exists. Use --force to overwrite.")
  writeOutput path (Utf8.encode defaultSettings)
  return path

def runInitialise (force : Bool) : Attempt CommandError Unit := do
  let path ← initialiseIn ⟨"."⟩ force
  Script.printLine s!"Created {path.text} configuration file"

/-- Runs a command. -/
def run (codec : Codec) (grammar : Grammar) (colored : Bool) : Command → Attempt CommandError Unit
  | .instrument request => do
    let _ ← runInstrument codec grammar colored request
  | .strip request => runStrip codec request
  | .initialise force => runInitialise force

end Command

end SourceCoverage
