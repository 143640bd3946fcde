import SourceCoverage.Instrumentation
import SourceCoverage.Reuse
import SourceCoverage.Staging

namespace SourceCoverage

inductive Outcome where
  | reused
  | instrumented (markers decisions : Nat) (reason : ReuseMiss)
deriving DecidableEq, Repr

/-- Reads a source, which has to be UTF-8. -/
def readSource (path : Path) : Attempt Failure Octets := do
  match ← Attempt.tried (Script.perform (.read path)) with
  | .error e => throw (.unreadable path e)
  | .ok source =>
    match Utf8.decode source with
    | .error fault => throw (.unreadable path ⟨.invalidData, fault.message⟩)
    | .ok _ => return source

/-- Writes an instrumented text and then its document. -/
def writePair (file : SourceFile) (output document : Octets) : Attempt Failure Unit := do
  let text ← (Staging.stage file.output output).mapError (.unwritable file.output)
  let description ← Staging.orDiscard text do
    let description ← (Staging.stage file.document document).mapError (.unwritable file.document)
    Staging.orDiscard description
      ((Staging.removeIfPresent file.document).mapError (.unwritable file.document))
    return description
  Staging.orDiscard description do
    let _ ← (Staging.commit text).mapError (.unwritable file.output)
  match ← (Staging.commit description).tried with
  | .ok _ => return
  | .error e =>
    let _ ← (Staging.removeIfPresent file.output).outcome
    throw (.unwritable file.document e)

/-- Instruments a source, or finds that its text can be used again. -/
def passFile (codec : Codec) (grammar : Grammar) (settings : Settings) (file : SourceFile) :
    Attempt Failure Outcome := do
  let source ← readSource file.input
  match ← reuseMiss? codec settings.force file (Sha256.digest source) (settings.fingerprint file.input) with
  | none => return .reused
  | some reason =>
    let made ← Attempt.ofExcept (Instrumentation.ofSource grammar settings file.input source)
    writePair file made.output (made.document.file codec settings.compressDocument)
    return .instrumented made.document.markers.length made.decisions reason

end SourceCoverage
