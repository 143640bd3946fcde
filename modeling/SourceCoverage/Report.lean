import SourceCoverage.FilePass

namespace SourceCoverage

/-- How a word of a line is set off on a terminal. -/
inductive Tint where
  | green
  | cyan
  | red
  | boldRed
deriving DecidableEq, Repr

def Tint.code : Tint → String
  | green => "32"
  | cyan => "36"
  | red => "31"
  | boldRed => "1;31"

def Tint.apply (tint : Tint) (colored : Bool) (text : String) : String :=
  if colored then s!"\x1b[{tint.code}m{text}\x1b[0m" else text

structure FileReport where
  input : Path
  result : Except Failure Outcome

namespace FileReport

def line (report : FileReport) (colored : Bool) : String :=
  let input := report.input.text
  match report.result with
  | .ok (.instrumented markers decisions _) =>
    Tint.green.apply colored "instrumented" ++ s!" {input} ({markers} markers, {decisions} decisions)"
  | .ok .reused => Tint.cyan.apply colored "up to date" ++ " " ++ input
  | .error failure =>
    if failure.isInternal then
      Tint.boldRed.apply colored "failed" ++
        s!" {input} [{failure.category}]: {failure.message} (internal error, please report it)"
    else Tint.red.apply colored "failed" ++ s!" {input} [{failure.category}]: {failure.message}"

end FileReport

structure RunSummary where
  instrumented : Nat := 0
  reused : Nat := 0
  failed : Nat := 0
deriving DecidableEq, Repr

namespace RunSummary

def add (summary : RunSummary) (report : FileReport) : RunSummary :=
  match report.result with
  | .ok (.instrumented ..) => { summary with instrumented := summary.instrumented + 1 }
  | .ok .reused => { summary with reused := summary.reused + 1 }
  | .error _ => { summary with failed := summary.failed + 1 }

def ofReports (reports : List FileReport) : RunSummary := reports.foldl add {}

def total (summary : RunSummary) : Nat := summary.instrumented + summary.reused + summary.failed

def hasFailures (summary : RunSummary) : Bool := 0 < summary.failed

def text (summary : RunSummary) : String :=
  s!"{summary.instrumented} instrumented, {summary.reused} up to date, {summary.failed} failed"

end RunSummary

namespace Script

def printLine (text : String) : Script Unit := perform (.print (Utf8.encode (text ++ "\n")))

end Script

/-- Passes over every file and prints a line for each. A failure of one file does not stop the others. -/
def passAll (codec : Codec) (grammar : Grammar) (settings : Settings) (colored : Bool) :
    List SourceFile → Script (List FileReport)
  | [] => return []
  | file :: files => do
    let report : FileReport := ⟨file.input, ← (passFile codec grammar settings file).outcome⟩
    Script.printLine (report.line colored)
    let reports ← passAll codec grammar settings colored files
    return report :: reports

end SourceCoverage
