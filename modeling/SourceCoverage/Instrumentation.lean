import SourceCoverage.Failure
import SourceCoverage.Finder
import SourceCoverage.Instrumented.Insertion
import SourceCoverage.Lowering
import SourceCoverage.SourceFile

namespace SourceCoverage

/-- A parsed source. -/
structure ParsedSource where
  dialect : Dialect
  root : SyntaxNode

/-- Where syntax trees come from: a file's path, its text and the compiler flags decide. -/
abbrev Grammar := Path → Octets → List String → Except Failure ParsedSource

/-- The grammar that lowers a concrete tree, the tree depending on dialect and text alone. -/
def Grammar.ofConcrete (parse : Dialect → Octets → Except Failure ConcreteNode) : Grammar :=
  fun path source flags => do
    let dialect := Dialect.choose path flags
    let tree ← parse dialect source
    match SyntaxNode.ofConcrete dialect source tree with
    | .ok root => .ok ⟨dialect, root⟩
    | .error fault => .error (.unparsable path fault.position fault.message)

structure Instrumentation where
  document : Document
  output : Octets
  checkpoints : Nat
  decisions : Nat
deriving DecidableEq, Repr

namespace Instrumentation

/-- Instruments a text whose tree and hash are known. -/
def ofParsed (settings : Settings) (input : Path) (source : Octets) (sourceHash : String)
    (parsed : ParsedSource) : Except Failure Instrumentation :=
  let walk := Finder.walk settings.decisionPolicy parsed.root { sourceHash }
  match walk.failure with
  | some duplicate => .error (.duplicate duplicate)
  | none =>
    let document := { walk.ledger.finalize with settingsHash := settings.fingerprint input }
    let probes : Probes := { names := settings.probes, dialect := parsed.dialect }
    match instrumentText probes (preamble settings.runtimeHeader input) source document.markers with
    | .error (marker, misfit) => .error (.misplaced marker misfit.message)
    | .ok output => .ok ⟨document, output, walk.checkpoints, walk.decisions⟩

/-- Instruments a source text. The path is recorded in the preamble and helps to choose the dialect. -/
def ofSource (grammar : Grammar) (settings : Settings) (input : Path) (source : Octets) :
    Except Failure Instrumentation := do
  let parsed ← grammar input source settings.compilerArgs
  ofParsed settings input source (Sha256.digest source) parsed

end Instrumentation

end SourceCoverage
