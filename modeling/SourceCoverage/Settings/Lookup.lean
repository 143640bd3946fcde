import SourceCoverage.Settings.File
import SourceCoverage.Workspace.Script
import SourceCoverage.Utf8

namespace SourceCoverage

namespace Settings

/-- How many directories are searched. -/
def searchDepth : Nat := 10

def firstFile? : List Path → Script (Option Path)
  | [] => return none
  | path :: paths => do
    if ← Script.perform (.isFile path) then return some path
    firstFile? paths

/-- The nearest settings file, from a directory upwards. -/
def find? (start : Path) : Script (Option Path) :=
  firstFile? ((start.ancestors searchDepth).map (·.join ⟨fileName⟩))

/-- The settings file to be read. Without a working directory there is none. -/
def locate? (named : Option Path) : Script (Option Path) := do
  match named with
  | some path => return some path
  | none =>
    match ← Script.perform .workingDirectory with
    | .error _ => return none
    | .ok directory => find? directory

end Settings

namespace Overrides

/-- What a settings file sets. -/
def read (codec : Codec) (path : Path) : Attempt Failure Overrides := do
  match ← Attempt.tried (Script.perform (.read path)) with
  | .error e => throw (.badSettings path e.message)
  | .ok contents =>
    match Utf8.decode contents with
    | .error _ => throw (.badSettings path "stream did not contain valid UTF-8")
    | .ok text =>
      match ofText codec text with
      | .error fault => throw (.badSettings path fault.message)
      | .ok given => return given

/-- What the settings file sets; nothing if there is none. -/
def load (codec : Codec) (named : Option Path) : Attempt Failure Overrides := do
  match ← Settings.locate? named with
  | none => return {}
  | some path => read codec path

end Overrides

end SourceCoverage
