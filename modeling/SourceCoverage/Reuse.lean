import SourceCoverage.Document.File
import SourceCoverage.SourceFile
import SourceCoverage.Workspace.Script

namespace SourceCoverage

/-- Why a file has to be instrumented. -/
inductive ReuseMiss where
  | forced
  | outputMissing
  | documentUnavailable (reason : String)
  | sourceChanged
  | settingsChanged
deriving DecidableEq, Repr

def ReuseMiss.message : ReuseMiss → String
  | forced => "forced"
  | outputMissing => "instrumented output missing"
  | documentUnavailable reason => s!"CID unavailable ({reason})"
  | sourceChanged => "source changed"
  | settingsChanged => "configuration changed"

namespace Document

/-- Reads a document file. -/
def load (codec : Codec) (path : Path) : Attempt Failure Document := do
  match ← Attempt.tried (Script.perform (.read path)) with
  | .error e => throw (.unusableDocument path e.message)
  | .ok file =>
    match ofFile codec file with
    | .error fault => throw (.unusableDocument path fault.message)
    | .ok document => return document

/-- What a document says against being used again. -/
def miss? (d : Document) (sourceHash settingsHash : String) : Option ReuseMiss :=
  if d.sourceHash != sourceHash then some .sourceChanged
  else if d.settingsHash != settingsHash then some .settingsChanged
  else none

end Document

/-- The reason for instrumenting a file; nothing if what is there can be used again. A document that
cannot be read is a reason, not a failure. -/
def reuseMiss? (codec : Codec) (force : Bool) (file : SourceFile) (sourceHash settingsHash : String) :
    Script (Option ReuseMiss) := do
  if force then return some .forced
  if !(← Script.perform (.isFile file.output)) then return some .outputMissing
  match ← (Document.load codec file.document).outcome with
  | .error failure => return some (.documentUnavailable failure.message)
  | .ok document => return document.miss? sourceHash settingsHash

end SourceCoverage
