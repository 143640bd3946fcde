import SourceCoverage.Utf8
import SourceCoverage.Marker
import SourceCoverage.Dialect

namespace SourceCoverage

/-- The names of the two runtime functions that probes call. -/
structure ProbeNames where
  checkpoint : String := "__coveron_checkpoint"
  evaluation : String := "__coveron_evaluation"
deriving DecidableEq, Repr

structure Probes where
  names : ProbeNames := {}
  dialect : Dialect := .c
deriving DecidableEq, Repr

namespace Probes

def checkpoint (probes : Probes) (id : MarkerId) : String := s!"{probes.names.checkpoint}({id}); "

/-- The suffix `u` tells a braced checkpoint from a plain one after a brace of the source. -/
def scopeOpen (probes : Probes) (id : MarkerId) : String :=
  "\x7b " ++ probes.names.checkpoint ++ s!"({id}u); "

def scopeClose (_ : Probes) : String := " \x7d"

def evaluationOpen (probes : Probes) (id : MarkerId) : String := s!"{probes.names.evaluation}({id}, ("

def evaluationClose (probes : Probes) : String :=
  match probes.dialect with
  | .c => ") ? 1 : 0)"
  | .cpp => ") ? true : false)"

end Probes

/-- A path inside a string literal: backslashes and quotes are escaped. -/
def quotedPath (path : Path) : String :=
  String.ofList (path.text.toList.flatMap fun c => if c == '\\' || c == '"' then ['\\', c] else [c])

/-- The two lines in front of an instrumented text. -/
def preamble (header input : Path) : String :=
  "#include \"" ++ quotedPath header ++ "\"\n#line 1 \"" ++ quotedPath input ++ "\"\n"

end SourceCoverage
