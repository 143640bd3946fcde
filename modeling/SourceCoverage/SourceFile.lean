import SourceCoverage.Settings

namespace SourceCoverage

structure SourceFile where
  input : Path
  output : Path
  document : Path
deriving DecidableEq, Repr

namespace SourceFile

/-- Eight digits that tell paths apart. A path that cannot be made absolute stands for itself. -/
def tag (workingDirectory : Option Path) (input : Path) : String :=
  let whole := (input.absolute? workingDirectory).getD input
  String.ofList ((Sha256.digest (Utf8.encode whole.text)).toList.take 8)

/-- The name shared by the instrumented text and the document, without extension. -/
def taggedStem (workingDirectory : Option Path) (input : Path) : String :=
  input.stem?.getD "source" ++ "_" ++ tag workingDirectory input

def inDirectory (workingDirectory : Option Path) (outputDir input : Path) : SourceFile :=
  let stem := taggedStem workingDirectory input
  { input
    output := outputDir.join ⟨match input.extension? with
      | some extension => stem ++ "." ++ extension
      | none => stem⟩
    document := outputDir.join ⟨stem ++ ".cid"⟩ }

/-- Keeps the first of several files with one output. -/
def distinct (seen : List Path) : List SourceFile → List SourceFile
  | [] => []
  | file :: files =>
    if seen.any file.output.agrees then distinct seen files
    else file :: distinct (file.output :: seen) files

/-- The files of a run, one for each output, in the order given. -/
def plan (workingDirectory : Option Path) (settings : Settings) (sources : List Path) : List SourceFile :=
  distinct [] (sources.map (inDirectory workingDirectory settings.outputDir))

end SourceFile

end SourceCoverage
