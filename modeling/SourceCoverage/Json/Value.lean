import SourceCoverage.Utf8

namespace SourceCoverage

/-- A number as written. `fraction` holds the digits after the point. -/
structure JsonNumber where
  negative : Bool := false
  whole : Nat
  fraction : Octets := []
  exponent : Option Int := none
deriving DecidableEq, Repr

inductive Json where
  | null
  | bool (value : Bool)
  | number (value : JsonNumber)
  | text (raw : Octets)
  | array (items : List Json)
  | object (fields : List (Octets × Json))
deriving Repr

namespace JsonNumber

/-- The natural number that is written without sign, point and exponent. -/
def nat? (n : JsonNumber) : Option Nat :=
  if !n.negative && n.fraction.isEmpty && n.exponent.isNone then some n.whole else none

/-- All digits as one number. -/
def significand (n : JsonNumber) : Nat :=
  n.fraction.foldl (fun value b => 10 * value + (b.toNat - 48)) n.whole

/-- The smallest magnitude that rounds to no finite double. -/
def overflowBound : Nat := Nat.pow 2 1024 - Nat.pow 2 970

/-- The number can be rounded to a finite double. -/
def isFinite (n : JsonNumber) : Bool :=
  let scale := n.exponent.getD 0 - n.fraction.length
  if n.significand == 0 then true
  else if 0 ≤ scale then scale ≤ 400 && n.significand * Nat.pow 10 scale.toNat < overflowBound
  else if scale < -20000 then true
  else n.significand < overflowBound * Nat.pow 10 (-scale).toNat

end JsonNumber

namespace Json

open Octets

def ofNat (n : Nat) : Json := .number { whole := n }

def hexOctet (n : Nat) : UInt8 := ascii (hexDigit n)

/-- How an octet of text is written. -/
def escapeOctet (b : UInt8) : Octets :=
  if b == ascii '"' then [ascii '\\', ascii '"']
  else if b == ascii '\\' then [ascii '\\', ascii '\\']
  else if b == 8 then [ascii '\\', ascii 'b']
  else if b == 9 then [ascii '\\', ascii 't']
  else if b == 10 then [ascii '\\', ascii 'n']
  else if b == 12 then [ascii '\\', ascii 'f']
  else if b == 13 then [ascii '\\', ascii 'r']
  else if b < 32 then
    [ascii '\\', ascii 'u', ascii '0', ascii '0', hexOctet (b.toNat / 16), hexOctet (b.toNat % 16)]
  else [b]

def ofString (s : String) : Json := .text ((Utf8.encode s).flatMap escapeOctet)

def record (fields : List (String × Json)) : Json :=
  .object (fields.map fun (name, value) => ((Utf8.encode name).flatMap escapeOctet, value))

def hexValue? (b : UInt8) : Option Nat :=
  if isDigit b then some (b.toNat - 48)
  else if 65 ≤ b && b ≤ 70 then some (b.toNat - 55)
  else if 97 ≤ b && b ≤ 102 then some (b.toNat - 87)
  else none

def hexQuad? (p q r s : UInt8) : Option Nat := do
  let p ← hexValue? p
  let q ← hexValue? q
  let r ← hexValue? r
  let s ← hexValue? s
  return ((p * 16 + q) * 16 + r) * 16 + s

/-- What a backslash and one octet stand for. -/
def shortEscape? (b : UInt8) : Option UInt8 :=
  if b == ascii '"' || b == ascii '\\' || b == ascii '/' then some b
  else if b == ascii 'b' then some 8
  else if b == ascii 't' then some 9
  else if b == ascii 'n' then some 10
  else if b == ascii 'f' then some 12
  else if b == ascii 'r' then some 13
  else none

def encodeScalar (n : Nat) : Octets := Utf8.encode (String.singleton (Char.ofNat n))

def isHighSurrogate (n : Nat) : Bool := 0xD800 ≤ n && n ≤ 0xDBFF

def isLowSurrogate (n : Nat) : Bool := 0xDC00 ≤ n && n ≤ 0xDFFF

/-- Replaces escapes, the octets so far being held in reverse. Surrogates have to come in pairs. -/
def unescapeFrom (out : Octets) (raw : Octets) : Option Octets :=
  match raw with
  | [] => some out.reverse
  | b :: rest =>
    if b != ascii '\\' then unescapeFrom (b :: out) rest
    else
      match rest with
      | [] => none
      | u :: rest =>
        if u != ascii 'u' then
          match shortEscape? u with
          | some b => unescapeFrom (b :: out) rest
          | none => none
        else
          match rest with
          | p :: q :: r :: s :: rest =>
            match hexQuad? p q r s with
            | none => none
            | some high =>
              if isLowSurrogate high then none
              else if !isHighSurrogate high then unescapeFrom ((encodeScalar high).reverse ++ out) rest
              else
                match rest with
                | b :: u :: p :: q :: r :: s :: rest =>
                  match hexQuad? p q r s with
                  | none => none
                  | some low =>
                    if b == ascii '\\' && u == ascii 'u' && isLowSurrogate low then
                      let scalar := 0x10000 + (high - 0xD800) * 1024 + (low - 0xDC00)
                      unescapeFrom ((encodeScalar scalar).reverse ++ out) rest
                    else none
                | _ => none
          | _ => none

/-- The string that raw text stands for. -/
def decodeText (raw : Octets) : Option String :=
  (unescapeFrom [] raw).bind fun octets => (Utf8.decode octets).toOption

def digits (n : Nat) : Octets := Utf8.encode (toString n)

def numberText (n : JsonNumber) : Octets :=
  (if n.negative then [ascii '-'] else []) ++ digits n.whole ++
    (if n.fraction.isEmpty then [] else ascii '.' :: n.fraction) ++
    (match n.exponent with
      | none => []
      | some e => ascii 'e' :: (if e < 0 then [ascii '-'] else []) ++ digits e.natAbs)

def quoted (raw : Octets) : Octets := ascii '"' :: raw ++ [ascii '"']

/-- A new line, two blanks for each level. -/
def lineStart (level : Nat) : Octets := newline :: List.replicate (2 * level) (ascii ' ')

mutual

/-- The indented form, nested values being on lines of their own. -/
def pretty (level : Nat) : Json → Octets
  | .null => Utf8.encode "null"
  | .bool value => Utf8.encode (if value then "true" else "false")
  | .number value => numberText value
  | .text raw => quoted raw
  | .array items =>
    ascii '[' :: prettyItems (level + 1) [] items ++
      (if items.isEmpty then [] else lineStart level) ++ [ascii ']']
  | .object fields =>
    ascii '\x7b' :: prettyFields (level + 1) [] fields ++
      (if fields.isEmpty then [] else lineStart level) ++ [ascii '\x7d']

def prettyItems (level : Nat) (separator : Octets) : List Json → Octets
  | [] => []
  | item :: items =>
    separator ++ lineStart level ++ pretty level item ++ prettyItems level [ascii ','] items

def prettyFields (level : Nat) (separator : Octets) : List (Octets × Json) → Octets
  | [] => []
  | (name, value) :: fields =>
    separator ++ lineStart level ++ quoted name ++ [ascii ':', ascii ' '] ++ pretty level value ++
      prettyFields level [ascii ','] fields

end

mutual

/-- The form without blanks. -/
def compact : Json → Octets
  | .null => Utf8.encode "null"
  | .bool value => Utf8.encode (if value then "true" else "false")
  | .number value => numberText value
  | .text raw => quoted raw
  | .array items => ascii '[' :: compactItems [] items ++ [ascii ']']
  | .object fields => ascii '\x7b' :: compactFields [] fields ++ [ascii '\x7d']

def compactItems (separator : Octets) : List Json → Octets
  | [] => []
  | item :: items => separator ++ compact item ++ compactItems [ascii ','] items

def compactFields (separator : Octets) : List (Octets × Json) → Octets
  | [] => []
  | (name, value) :: fields =>
    separator ++ quoted name ++ ascii ':' :: compact value ++ compactFields [ascii ','] fields

end

mutual

/-- Levels of arrays and objects inside each other. -/
def depth : Json → Nat
  | .array items => depthOfItems items + 1
  | .object fields => depthOfFields fields + 1
  | _ => 0

def depthOfItems : List Json → Nat
  | [] => 0
  | item :: items => max (depth item) (depthOfItems items)

def depthOfFields : List (Octets × Json) → Nat
  | [] => 0
  | (_, value) :: fields => max (depth value) (depthOfFields fields)

end

/-- The level of arrays and objects at which reading is given up. -/
def recursionLimit : Nat := 128

mutual

/-- Every text and every number in a value can be interpreted. -/
def isInterpretable : Json → Bool
  | .number value => value.isFinite
  | .text raw => (decodeText raw).isSome
  | .array items => itemsInterpretable items
  | .object fields => fieldsInterpretable fields
  | _ => true

def itemsInterpretable : List Json → Bool
  | [] => true
  | item :: items => isInterpretable item && itemsInterpretable items

def fieldsInterpretable : List (Octets × Json) → Bool
  | [] => true
  | (name, value) :: fields => (decodeText name).isSome && isInterpretable value && fieldsInterpretable fields

end

end Json

end SourceCoverage
