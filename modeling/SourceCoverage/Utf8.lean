import SourceCoverage.Octets

namespace SourceCoverage.Utf8

def encode (s : String) : Octets := s.toByteArray.data.toList

/-- The first place where octets stop being UTF-8. `width` is missing when the input ends inside a
sequence that more octets could complete. -/
structure Fault where
  validUpTo : Nat
  width : Option Nat
deriving DecidableEq, Repr

def Fault.message (fault : Fault) : String :=
  let index := fault.validUpTo
  match fault.width with
  | some width => s!"invalid utf-8 sequence of {width} bytes from index {index}"
  | none => s!"incomplete utf-8 byte sequence from index {index}"

/-- What stands at the front of an octet string. -/
inductive Reading where
  | scalar (c : Char) (width : Nat)
  | illFormed (width : Nat)
  | truncated
deriving DecidableEq, Repr

def isContinuation (b : UInt8) : Bool := 0x80 ≤ b && b ≤ 0xBF

/-- Octets that may follow `lead` in a sequence of three or four; the bounds keep out overlong forms,
surrogates and values above the last code point. -/
def secondBounds (lead : UInt8) : UInt8 × UInt8 :=
  if lead == 0xE0 then (0xA0, 0xBF)
  else if lead == 0xED then (0x80, 0x9F)
  else if lead == 0xF0 then (0x90, 0xBF)
  else if lead == 0xF4 then (0x80, 0x8F)
  else (0x80, 0xBF)

def payload (b : UInt8) : Nat := b.toNat % 64

/-- The sequence that starts with `lead` and goes on in `rest`. -/
def reading (lead : UInt8) (rest : Octets) : Reading :=
  if lead < 0x80 then .scalar (Char.ofNat lead.toNat) 1
  else if lead < 0xC2 || 0xF4 < lead then .illFormed 1
  else if lead < 0xE0 then
    match rest with
    | [] => .truncated
    | b :: _ =>
      if isContinuation b then .scalar (Char.ofNat (lead.toNat % 32 * 64 + payload b)) 2 else .illFormed 1
  else
    let (low, high) := secondBounds lead
    match rest with
    | [] => .truncated
    | b :: rest =>
      if b < low || high < b then .illFormed 1
      else
        match rest with
        | [] => .truncated
        | c :: rest =>
          if !isContinuation c then .illFormed 2
          else if lead < 0xF0 then
            .scalar (Char.ofNat (lead.toNat % 16 * 4096 + payload b * 64 + payload c)) 3
          else
            match rest with
            | [] => .truncated
            | d :: _ =>
              if !isContinuation d then .illFormed 3
              else .scalar (Char.ofNat (lead.toNat % 8 * 262144 + payload b * 4096 + payload c * 64 + payload d)) 4

def decodeFrom (index : Nat) (out : String) : Octets → Except Fault String
  | [] => .ok out
  | lead :: rest =>
    match reading lead rest with
    | .scalar c width => decodeFrom (index + width) (out.push c) (rest.drop (width - 1))
    | .illFormed width => .error ⟨index, some width⟩
    | .truncated => .error ⟨index, none⟩
termination_by text => text.length
decreasing_by simp only [List.length_drop, List.length_cons]; omega

def decode (text : Octets) : Except Fault String := decodeFrom 0 "" text

def replacement : Char := Char.ofNat 0xFFFD

def decodeLossyFrom (out : String) : Octets → String
  | [] => out
  | lead :: rest =>
    match reading lead rest with
    | .scalar c width => decodeLossyFrom (out.push c) (rest.drop (width - 1))
    | .illFormed width => decodeLossyFrom (out.push replacement) (rest.drop (width - 1))
    | .truncated => out.push replacement
termination_by text => text.length
decreasing_by all_goals (simp only [List.length_drop, List.length_cons]; omega)

/-- Text of any octets: one replacement character stands for each ill-formed sequence. -/
def decodeLossy (text : Octets) : String := decodeLossyFrom "" text

/-- An offset is a character boundary when no continuation octet stands there. -/
def isBoundary (text : Octets) (offset : Nat) : Bool :=
  match text[offset]? with
  | some b => !isContinuation b
  | none => offset == text.length

end SourceCoverage.Utf8
