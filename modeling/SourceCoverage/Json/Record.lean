import SourceCoverage.Json.Reader

namespace SourceCoverage

namespace Json

variable {α : Type}

/-- A number of 32 bits, written as a plain integer. -/
def word? : Json → Option UInt32
  | .number n => n.nat?.bind fun n => if n < 4294967296 then some n.toUInt32 else none
  | _ => none

def string? : Json → Option String
  | .text raw => decodeText raw
  | _ => none

def list? (item? : Json → Option α) : Json → Option (List α)
  | .array items => items.mapM item?
  | _ => none

/-- A word of a fixed list, as text or as the single name of an object that says no more. -/
def wordIn? (words : List (String × α)) : Json → Option α
  | .text raw => (decodeText raw).bind fun word => words.lookup word
  | .object [(name, .null)] => (decodeText name).bind fun word => words.lookup word
  | _ => none

def namedFields (fields : List (Octets × Json)) : Option (List (String × Json)) :=
  fields.mapM fun (name, value) => (decodeText name).map (·, value)

/-- The value of each named field. -/
def fields? (names : List String) : Json → Option (List (Option Json))
  | .array items =>
    if items.length ≤ names.length then
      some (items.map some ++ List.replicate (names.length - items.length) none)
    else none
  | .object fields => do
    let named ← namedFields fields
    if names.any fun name => 1 < (named.filter (·.1 == name)).length then none
    else some (names.map fun name => named.lookup name)
  | _ => none

def required (read? : Json → Option α) (field : Option Json) : Option α := field.bind read?

/-- A field that may be left out. -/
def defaulted (read? : Json → Option α) (default : α) : Option Json → Option α
  | none => some default
  | some json => read? json

/-- A field that may be left out or null. -/
def optional (read? : Json → Option α) : Option Json → Option (Option α)
  | none | some .null => some none
  | some json => (read? json).map some

/-- Divides a value into its tag and what else it says. An object has the tag under a name of its
own, an array has it first. -/
def tagged? (name : String) : Json → Option (Json × Json)
  | .array (tag :: items) => some (tag, .array items)
  | .object fields =>
    match fields.partition (fun field => decodeText field.1 == some name) with
    | ([(_, tag)], others) => some (tag, .object others)
    | _ => none
  | _ => none

end Json

end SourceCoverage
