import SourceCoverage.Ledger
import SourceCoverage.Path

namespace SourceCoverage

inductive FileErrorKind where
  | notFound
  | permissionDenied
  | alreadyExists
  | interrupted
  | invalidData
  | other
deriving DecidableEq, Repr

/-- An operation on a file that failed, in the words of the operating system. -/
structure FileError where
  kind : FileErrorKind
  message : String
deriving DecidableEq, Repr

inductive Failure where
  | unreadable (path : Path) (cause : FileError)
  | unparsable (path : Path) (position : Position) (message : String)
  | duplicate (cause : Duplicate)
  | misplaced (marker : MarkerId) (reason : String)
  | unusableDocument (path : Path) (reason : String)
  | unwritable (path : Path) (cause : FileError)
  | badSettings (path : Path) (message : String)
  | runtimeMissing (path : Path)
  | compilation (program message : String)
deriving DecidableEq, Repr

def Duplicate.message : Duplicate → String
  | .checkpoint position existing => s!"duplicate checkpoint at {position.text} (already marker {existing})"
  | .evaluation sect kind existing =>
    s!"duplicate {kind.text} evaluation at {sect.text} (already marker {existing})"

namespace Failure

def message : Failure → String
  | unreadable path cause => s!"cannot read source file {path.text}: {cause.message}"
  | unparsable path position message => s!"parse error in {path.text}:{position.text}: {message}"
  | duplicate cause => cause.message
  | misplaced marker reason => s!"marker {marker} cannot be applied: {reason}"
  | unusableDocument path reason => s!"cannot use CID file {path.text}: {reason}"
  | unwritable path cause => s!"cannot write {path.text}: {cause.message}"
  | badSettings path message => s!"configuration error in {path.text}: {message}"
  | runtimeMissing path => s!"runtime helper not found at {path.text}"
  | compilation program message => s!"compiler `{program}` failed: {message}"

/-- The label in the line of a failed file. -/
def category : Failure → String
  | unreadable .. => "input"
  | unparsable .. => "parse"
  | duplicate .. => "duplicate-marker"
  | misplaced .. => "overlapping-marker"
  | unusableDocument .. => "cache"
  | unwritable .. => "output"
  | badSettings .. => "config"
  | runtimeMissing .. => "runtime-helper"
  | compilation .. => "compiler"

/-- Markers that collide or do not fit the source point at a fault of the instrumenter itself. -/
def isInternal : Failure → Bool
  | duplicate .. | misplaced .. => true
  | _ => false

/-- The failed operation behind a failure. -/
def fileError? : Failure → Option FileError
  | unreadable _ cause | unwritable _ cause => some cause
  | _ => none

end Failure

end SourceCoverage
