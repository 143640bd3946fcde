import SourceCoverage.Path

namespace SourceCoverage

inductive Dialect where
  | c
  | cpp
deriving DecidableEq, Repr

namespace Dialect

def cppExtensions : List String :=
  ["cc", "cpp", "cxx", "c++", "cp", "hpp", "hh", "hxx", "h++", "ipp", "tpp"]

/-- Lowercases ASCII letters only. -/
def lowercase (s : String) : String := s.map Char.toLower

def ofPath (path : Path) : Dialect :=
  match path.extension? with
  | some ext => if cppExtensions.contains (lowercase ext) then cpp else c
  | none => c

/-- The dialect that a language name after `-x` asks for, if it is one of the two. -/
def ofLanguage : String → Option Dialect
  | "c" | "c-header" => some c
  | "c++" | "c++-header" => some cpp
  | _ => none

def hasTwoPluses : List Char → Bool
  | '+' :: '+' :: _ => true
  | _ :: rest => hasTwoPluses rest
  | [] => false

def ofStandard (standard : List Char) : Dialect := if hasTwoPluses standard then cpp else c

/-- The characters after a given start of a flag. -/
def flagRest? (start : String) (flag : String) : Option (List Char) :=
  if start.toList.isPrefixOf flag.toList then some (flag.toList.drop start.length) else none

private def ofFlagsFrom (chosen : Option Dialect) : List String → Option Dialect
  | [] => chosen
  | ["-x"] => chosen
  | "-x" :: language :: flags => ofFlagsFrom ((ofLanguage language).or chosen) flags
  | flag :: flags =>
    match flagRest? "-x" flag with
    | some language => ofFlagsFrom ((ofLanguage (String.ofList language)).or chosen) flags
    | none =>
      match flagRest? "-std=" flag with
      | some standard => ofFlagsFrom (some (ofStandard standard)) flags
      | none => ofFlagsFrom chosen flags

/-- The last flag that names a language or a standard wins. -/
def ofFlags (flags : List String) : Option Dialect := ofFlagsFrom none flags

def choose (path : Path) (flags : List String) : Dialect := (ofFlags flags).getD (ofPath path)

end Dialect

end SourceCoverage
