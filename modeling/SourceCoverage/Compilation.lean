import SourceCoverage.SourceFile
import SourceCoverage.Workspace.Script

namespace SourceCoverage

structure CompileJob where
  program : String
  includeDirs : List Path := []
  args : List String := []
  sources : List Path := []
  runtimeSource : Path
deriving DecidableEq, Repr

/-- The directory of a file; a name alone lies in the working directory. -/
def directoryOf (path : Path) : Path :=
  match path.parent? with
  | some parent => if parent.text.isEmpty then ⟨"."⟩ else parent
  | none => ⟨"."⟩

/-- Keeps the first spelling of each path. -/
def distinctPaths (seen : List Path) : List Path → List Path
  | [] => []
  | path :: paths =>
    if seen.any path.agrees then distinctPaths seen paths else path :: distinctPaths (path :: seen) paths

/-- The directories of the sources, in the order in which they are met. -/
def inputDirectories (files : List SourceFile) : List Path :=
  distinctPaths [] (files.map fun file => directoryOf file.input)

namespace CompileJob

def ofFiles (program : String) (args : List String) (files : List SourceFile) (runtimeSource : Path) :
    CompileJob where
  program
  includeDirs := inputDirectories files
  args
  sources := files.map SourceFile.output
  runtimeSource

def arguments (job : CompileJob) : List String :=
  (job.includeDirs.flatMap fun dir => ["-iquote", dir.text]) ++ job.args ++ job.sources.map Path.text ++
    [job.runtimeSource.text]

/-- Starts the compiler. The runtime has to be there. -/
def run (job : CompileJob) : Attempt Failure Unit := do
  if !(← Script.perform (.isFile job.runtimeSource)) then throw (.runtimeMissing job.runtimeSource)
  match ← Attempt.tried (Script.perform (.start job.program job.arguments)) with
  | .error e => throw (.compilation job.program e.message)
  | .ok status =>
    if status.isSuccess then return
    throw (.compilation job.program s!"exited with {status.text}")

end CompileJob

end SourceCoverage
