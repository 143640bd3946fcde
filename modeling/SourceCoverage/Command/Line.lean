import SourceCoverage.Command.Usage
import SourceCoverage.Settings.File

namespace SourceCoverage

/-- What the command line asks of an instrumentation. -/
structure InstrumentRequest where
  sources : List Path
  compilerArgs : List String := []
  outputDir : Option Path := none
  force : Bool := false
  verbosity : Nat := 0
  settingsFile : Option Path := none
  decisionPolicy : Option DecisionPolicy := none
  runtimeHeader : Option Path := none
  compiler : Option String := none
  runtimeSource : Option Path := none
  compressDocument : Bool := false
  jobs : Option Nat := none
  sequential : Bool := false
deriving DecidableEq, Repr

structure StripRequest where
  file : Path
  output : Option Path := none
  cpp : Bool := false
  settingsFile : Option Path := none
deriving DecidableEq, Repr

inductive Command where
  | instrument (request : InstrumentRequest)
  | strip (request : StripRequest)
  | initialise (force : Bool)
deriving DecidableEq, Repr

namespace InstrumentRequest

/-- Defaults, then the settings file, then the command line. -/
def settings (request : InstrumentRequest) (given : Overrides) : Settings :=
  let base := ({} : Settings).override given
  { base with
    force := request.force
    verbosity := request.verbosity
    outputDir := request.outputDir.getD base.outputDir
    compilerArgs := if request.compilerArgs.isEmpty then base.compilerArgs else request.compilerArgs
    decisionPolicy := request.decisionPolicy.getD base.decisionPolicy
    runtimeHeader := request.runtimeHeader.getD base.runtimeHeader
    compiler := request.compiler.or base.compiler
    runtimeSource := request.runtimeSource.getD base.runtimeSource
    compressDocument := request.compressDocument || base.compressDocument
    jobs := request.jobs.getD base.jobs
    parallel := !request.sequential && base.parallel }

end InstrumentRequest

/-- The dialect of the file to strip: C++ if that is asked for, or else by its extension. -/
def StripRequest.dialect (request : StripRequest) : Dialect :=
  if request.cpp then .cpp else Dialect.ofPath request.file

namespace Command

open Usage

def checkPath (value : String) : Option UsageError := if value.isEmpty then some .invalidValue else none

def checkPolicy (value : String) : Option UsageError :=
  if (DecisionPolicy.ofName? value).isSome then none else some .invalidValue

/-- A count of at most 64 bits; a plus sign may stand in front. -/
def count? (value : String) : Option Nat :=
  let digits := match value.toList with
    | '+' :: rest => rest
    | chars => chars
  if digits.isEmpty || !digits.all Char.isDigit then none
  else
    let n := digits.foldl (fun n c => 10 * n + (c.toNat - 48)) 0
    if n < 18446744073709551616 then some n else none

def checkCount (value : String) : Option UsageError :=
  if (count? value).isSome then none else some .valueValidation

def helpOption : Parameter := { name := "help", short := some 'h', arity := .shows .displayHelp }

def pathOption (name : String) (short : Option Char) : Parameter :=
  { name, short, arity := .single, check := checkPath }

def flagOption (name : String) (short : Option Char) : Parameter := { name, short, arity := .flag }

def instrumentUsage : Usage where
  options := [
    pathOption "output-dir" (some 'o'), flagOption "force" (some 'f'),
    { name := "verbose", short := some 'v', arity := .counter }, pathOption "config" (some 'c'),
    { name := "decision-policy", arity := .single, check := checkPolicy },
    pathOption "runtime-header" none, { name := "compiler", arity := .single },
    pathOption "runtime-source" none, flagOption "compress-cid" none,
    { name := "jobs", short := some 'j', arity := .single, check := checkCount },
    flagOption "no-parallel" none, helpOption]
  words := some { name := "<sources>", arity := .many, check := checkPath }
  trailing := some { name := "<compiler-args>", arity := .many }

def stripUsage : Usage where
  options := [pathOption "output" (some 'o'), flagOption "cpp" none, pathOption "config" (some 'c'), helpOption]
  words := some { name := "<file>", arity := .single, check := checkPath }

def initialiseUsage : Usage where
  options := [flagOption "force" (some 'f'), helpOption]

/-- The greatest verbosity that is told apart. -/
def highestVerbosity : Nat := 255

def ofInstrument (m : Matching) : Command :=
  .instrument {
    sources := (m.values "<sources>").map Path.mk
    compilerArgs := m.values "<compiler-args>"
    outputDir := (m.value? "output-dir").map Path.mk
    force := m.isGiven "force"
    verbosity := min (m.count "verbose") highestVerbosity
    settingsFile := (m.value? "config").map Path.mk
    decisionPolicy := (m.value? "decision-policy").bind DecisionPolicy.ofName?
    runtimeHeader := (m.value? "runtime-header").map Path.mk
    compiler := m.value? "compiler"
    runtimeSource := (m.value? "runtime-source").map Path.mk
    compressDocument := m.isGiven "compress-cid"
    jobs := (m.value? "jobs").bind count?
    sequential := m.isGiven "no-parallel" }

def ofStrip (m : Matching) : Command :=
  .strip {
    file := ⟨(m.value? "<file>").getD ""⟩
    output := (m.value? "output").map Path.mk
    cpp := m.isGiven "cpp"
    settingsFile := (m.value? "config").map Path.mk }

def names : List String := ["instrument", "strip", "init", "help"]

/-- The command of a name and the words after it. -/
def ofName (name : String) (words : List String) : Except UsageError Command :=
  match name with
  | "instrument" => (instrumentUsage.match? words).map ofInstrument
  | "strip" => (stripUsage.match? words).map ofStrip
  | "init" => (initialiseUsage.match? words).map fun m => .initialise (m.isGiven "force")
  | "help" =>
    match words with
    | [] => .error .displayHelp
    | [topic] => .error (if names.contains topic then .displayHelp else .invalidSubcommand)
    | _ => .error .invalidSubcommand
  | _ => .error .invalidSubcommand

/-- What a long option in front of any command stands for. -/
def ofTopLong (name : String) (attached : Option String) : UsageError :=
  if name == "help" || name == "version" then
    if attached.isSome then .tooManyValues
    else if name == "help" then .displayHelp
    else .displayVersion
  else .unknownArgument

def ofTopShort (c : Char) : UsageError :=
  if c == 'h' then .displayHelp else if c == 'V' then .displayVersion else .unknownArgument

/-- The command that words ask for; the first word is the name of the program. -/
def ofWords (words : List String) : Except UsageError Command :=
  match words.drop 1 with
  | [] | ["--"] => .error .displayHelpOnMissing
  | "--" :: name :: _ => .error (if names.contains name then .unknownArgument else .invalidSubcommand)
  | word :: rest =>
    match word.toList with
    | '-' :: '-' :: option =>
      let (name, attached) := Matching.divideAtEquals option
      .error (ofTopLong name attached)
    | '-' :: c :: _ => .error (ofTopShort c)
    | _ => ofName word rest

end Command

end SourceCoverage
