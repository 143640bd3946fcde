import SourceCoverage.Json.Value

namespace SourceCoverage

namespace Json

open Octets

def isJsonBlank (b : UInt8) : Bool := b == 32 || b == 9 || b == 10 || b == 13

def skipBlanks (text : Octets) : Octets := text.dropWhile isJsonBlank

def isHexDigit (b : UInt8) : Bool := (hexValue? b).isSome

/-- Reads up to the closing quote; control octets and unknown escapes are refused. -/
def readText (raw : Octets) : Octets → Option (Octets × Octets)
  | [] => none
  | b :: rest =>
    if b == ascii '"' then some (raw.reverse, rest)
    else if b < 32 then none
    else if b != ascii '\\' then readText (b :: raw) rest
    else
      match rest with
      | [] => none
      | e :: rest =>
        if (shortEscape? e).isSome then readText (e :: b :: raw) rest
        else
          match rest with
          | p :: q :: r :: s :: rest =>
            if e == ascii 'u' && [p, q, r, s].all isHexDigit then
              readText (s :: r :: q :: p :: e :: b :: raw) rest
            else none
          | _ => none

def readDigits (text : Octets) : Octets × Octets := (text.takeWhile isDigit, text.dropWhile isDigit)

def value10 (digits : Octets) : Nat := digits.foldl (fun n b => 10 * n + (b.toNat - 48)) 0

/-- The digits after a point; nothing if there is no point. -/
def readFraction (text : Octets) : Option (Octets × Octets) :=
  match text with
  | [] => some ([], [])
  | b :: rest =>
    if b != ascii '.' then some ([], text)
    else
      let (digits, rest) := readDigits rest
      if digits.isEmpty then none else some (digits, rest)

def readSign (text : Octets) : Bool × Octets :=
  match text with
  | [] => (false, [])
  | b :: rest =>
    if b == ascii '-' then (true, rest) else if b == ascii '+' then (false, rest) else (false, text)

def readExponent (text : Octets) : Option (Option Int × Octets) :=
  match text with
  | [] => some (none, [])
  | b :: rest =>
    if b != ascii 'e' && b != ascii 'E' then some (none, text)
    else
      let (negative, rest) := readSign rest
      let (digits, rest) := readDigits rest
      let size : Int := value10 digits
      if digits.isEmpty then none else some (some (if negative then -size else size), rest)

/-- A number; a leading zero stands alone. -/
def readNumber (negative : Bool) (text : Octets) : Option (JsonNumber × Octets) := do
  let (digits, rest) := readDigits text
  if digits.isEmpty || (digits.length != 1 && digits.head? == some (ascii '0')) then none
  else
    let (fraction, rest) ← readFraction rest
    let (exponent, rest) ← readExponent rest
    return (⟨negative, value10 digits, fraction, exponent⟩, rest)

def readWord (text : Octets) : Option (Json × Octets) :=
  match after? (Utf8.encode "null") text with
  | some rest => some (.null, rest)
  | none =>
    match after? (Utf8.encode "true") text with
    | some rest => some (.bool true, rest)
    | none => (after? (Utf8.encode "false") text).map (.bool false, ·)

mutual

def readValue : (steps : Nat) → Octets → Option (Json × Octets)
  | 0, _ => none
  | steps + 1, input =>
    match skipBlanks input with
    | [] => none
    | b :: rest =>
      if b == ascii '"' then (readText [] rest).map fun (raw, rest) => (.text raw, rest)
      else if b == ascii '[' then
        match after? [ascii ']'] (skipBlanks rest) with
        | some rest => some (.array [], rest)
        | none => readItems steps [] rest
      else if b == ascii '\x7b' then
        match after? [ascii '\x7d'] (skipBlanks rest) with
        | some rest => some (.object [], rest)
        | none => readFields steps [] rest
      else if b == ascii '-' then (readNumber true rest).map fun (n, rest) => (.number n, rest)
      else if isDigit b then (readNumber false (b :: rest)).map fun (n, rest) => (.number n, rest)
      else readWord (b :: rest)

/-- The items from here to the closing bracket, after those in `items`, last first. -/
def readItems : (steps : Nat) → List Json → Octets → Option (Json × Octets)
  | 0, _, _ => none
  | steps + 1, items, input =>
    match readValue steps input with
    | none => none
    | some (item, rest) =>
      match skipBlanks rest with
      | [] => none
      | b :: rest =>
        if b == ascii ',' then readItems steps (item :: items) rest
        else if b == ascii ']' then some (.array (item :: items).reverse, rest)
        else none

/-- The fields from here to the closing brace, after those in `fields`, last first. -/
def readFields : (steps : Nat) → List (Octets × Json) → Octets → Option (Json × Octets)
  | 0, _, _ => none
  | steps + 1, fields, input =>
    match (after? [ascii '"'] (skipBlanks input)).bind (readText []) with
    | none => none
    | some (name, rest) =>
      match (after? [ascii ':'] (skipBlanks rest)).bind (readValue steps) with
      | none => none
      | some (value, rest) =>
        match skipBlanks rest with
        | [] => none
        | b :: rest =>
          if b == ascii ',' then readFields steps ((name, value) :: fields) rest
          else if b == ascii '\x7d' then some (.object ((name, value) :: fields).reverse, rest)
          else none

end

/-- The value that a whole text writes, blanks around it being allowed. -/
def read? (text : Octets) : Option Json := do
  let (value, rest) ← readValue (2 * text.length + 1) text
  if (skipBlanks rest).isEmpty then some value else none

end Json

end SourceCoverage
