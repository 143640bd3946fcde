import SourceCoverage.Codec
import SourceCoverage.Settings
import SourceCoverage.Toml.Reader

namespace SourceCoverage

/-- Why the contents of a settings file are refused. -/
inductive SettingsFault where
  | malformed (complaint : String)
  | badProbeName (name : String)
deriving DecidableEq, Repr

namespace Settings

def fileName : String := ".coveron.toml"

end Settings

def SettingsFault.message : SettingsFault → String
  | malformed complaint => s!"Failed to parse {Settings.fileName}: {complaint}"
  | badProbeName name => s!"probe name `{name}` is not a C identifier"

namespace Toml.Value

def string? : Value → Option String
  | string text => some text
  | _ => none

def path? (value : Value) : Option Path := value.string?.map Path.mk

def boolean? : Value → Option Bool
  | boolean value => some value
  | _ => none

/-- A count of at most 64 bits. -/
def count? : Value → Option Nat
  | integer value => if 0 ≤ value && value < 18446744073709551616 then some value.toNat else none
  | _ => none

def strings? : Value → Option (List String)
  | array items => items.mapM string?
  | _ => none

def isEmpty : Value → Bool
  | array [] | table _ [] => true
  | _ => false

/-- A policy by its name, or as the only key of a table, which then holds nothing. -/
def policy? : Value → Option DecisionPolicy
  | string name => DecisionPolicy.ofName? name
  | table _ [(name, value)] => if value.isEmpty then DecisionPolicy.ofName? name else none
  | _ => none

end Toml.Value

namespace ProbeOverrides

open Toml

def setField (given : ProbeOverrides) : String × Value → Option ProbeOverrides
  | ("checkpoint", value) => value.string?.map fun name => { given with checkpoint := some name }
  | ("evaluation", value) => value.string?.map fun name => { given with evaluation := some name }
  | _ => none

/-- Both names may also be given in order, in an array; what follows them does not count. -/
def ofToml? : Value → Option ProbeOverrides
  | .table _ fields => fields.foldlM setField {}
  | .array (checkpoint :: evaluation :: _) => do
    return ⟨some (← checkpoint.string?), some (← evaluation.string?)⟩
  | _ => none

end ProbeOverrides

namespace Overrides

open Toml

def setField (given : Overrides) : String × Value → Option Overrides
  | ("output_dir", value) => value.path?.map fun path => { given with outputDir := some path }
  | ("compiler", value) => value.string?.map fun name => { given with compiler := some name }
  | ("compiler_args", value) => value.strings?.map fun args => { given with compilerArgs := some args }
  | ("parallel", value) => value.boolean?.map fun flag => { given with parallel := some flag }
  | ("jobs", value) => value.count?.map fun count => { given with jobs := some count }
  | ("decision_policy", value) => value.policy?.map fun policy => { given with decisionPolicy := some policy }
  | ("runtime_header", value) => value.path?.map fun path => { given with runtimeHeader := some path }
  | ("runtime_source", value) => value.path?.map fun path => { given with runtimeSource := some path }
  | ("compress_cid", value) => value.boolean?.map fun flag => { given with compressDocument := some flag }
  | ("probes", value) => (ProbeOverrides.ofToml? value).map fun names => { given with probes := some names }
  | _ => none

def isIdentifierStart (c : Char) : Bool := c == '_' || c.isAlpha

def isIdentifier (name : String) : Bool :=
  match name.toList with
  | [] => false
  | c :: rest => isIdentifierStart c && rest.all fun c => isIdentifierStart c || c.isDigit

/-- The given probe names, in the order in which they are checked. -/
def probeNames (given : Overrides) : List String :=
  match given.probes with
  | none => []
  | some names => names.checkpoint.toList ++ names.evaluation.toList

/-- What the text of a settings file sets. -/
def ofText (codec : Codec) (text : String) : Except SettingsFault Overrides :=
  match (Toml.read? text).bind fun fields => fields.foldlM setField {} with
  | none => .error (.malformed (codec.settingsComplaint text))
  | some given =>
    match given.probeNames.find? (! isIdentifier ·) with
    | some name => .error (.badProbeName name)
    | none => .ok given

end Overrides

end SourceCoverage
