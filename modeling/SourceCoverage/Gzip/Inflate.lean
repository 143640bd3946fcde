import SourceCoverage.Gzip.Checksum

namespace SourceCoverage

namespace Gzip

abbrev Bits := List Bool

def octetBits (b : UInt8) : Bits := (List.range 8).map b.toNat.testBit

def Bits.ofOctets (text : Octets) : Bits := text.flatMap octetBits

/-- A number of `width` bits, lowest first. -/
def takeNumber : (width : Nat) → Bits → Option (Nat × Bits)
  | 0, bits => some (0, bits)
  | _ + 1, [] => none
  | width + 1, bit :: bits =>
    (takeNumber width bits).map fun (n, rest) => (2 * n + bit.toNat, rest)

/-- Leaves out what remains of an octet that has been begun. -/
def alignToOctet (bits : Bits) : Bits := bits.drop (bits.length % 8)

/-- A canonical code: how many symbols have codes of each length from one, and the symbols by length of
their code, those of one length in order. -/
structure PrefixCode where
  counts : List Nat
  symbols : Array Nat
deriving Repr

namespace PrefixCode

def longest : Nat := 15

def countOf (lengths : List Nat) (length : Nat) : Nat := (lengths.filter (· == length)).length

def ofLengths (lengths : List Nat) : PrefixCode where
  counts := (List.range longest).map fun i => countOf lengths (i + 1)
  symbols := ((List.range longest).flatMap fun i =>
    ((lengths.zipIdx.filter (·.1 == i + 1)).map Prod.snd)).toArray

/-- Codes that are left over when the given numbers of codes of length one, two and so on are in use. -/
def unused : (free : Int) → List Nat → Int
  | free, [] => free
  | free, count :: counts => unused (2 * free - count) counts

def isComplete (code : PrefixCode) : Bool := unused 1 code.counts == 0

/-- Reads one code: `code` are the bits so far, `first` the first code of that length and `index` its
place among the symbols. -/
def decodeFrom (symbols : Array Nat) (code first index : Nat) : List Nat → Bits → Option (Nat × Bits)
  | [], _ => none
  | _ :: _, [] => none
  | count :: counts, bit :: bits =>
    let code := code + bit.toNat
    if code < first + count then symbols[index + (code - first)]?.map (·, bits)
    else decodeFrom symbols (2 * code) (2 * (first + count)) (index + count) counts bits

def decode (code : PrefixCode) (bits : Bits) : Option (Nat × Bits) :=
  decodeFrom code.symbols 0 0 0 code.counts bits

end PrefixCode

/-- The least length and the number of further bits of length symbols 257 to 285. -/
def lengthCodes : List (Nat × Nat) :=
  [(3, 0), (4, 0), (5, 0), (6, 0), (7, 0), (8, 0), (9, 0), (10, 0), (11, 1), (13, 1), (15, 1), (17, 1),
   (19, 2), (23, 2), (27, 2), (31, 2), (35, 3), (43, 3), (51, 3), (59, 3), (67, 4), (83, 4), (99, 4),
   (115, 4), (131, 5), (163, 5), (195, 5), (227, 5), (258, 0)]

/-- The least distance and the number of further bits of distance symbols 0 to 29. -/
def distanceCodes : List (Nat × Nat) :=
  [(1, 0), (2, 0), (3, 0), (4, 0), (5, 1), (7, 1), (9, 2), (13, 2), (17, 3), (25, 3), (33, 4), (49, 4),
   (65, 5), (97, 5), (129, 6), (193, 6), (257, 7), (385, 7), (513, 8), (769, 8), (1025, 9), (1537, 9),
   (2049, 10), (3073, 10), (4097, 11), (6145, 11), (8193, 12), (12289, 12), (16385, 13), (24577, 13)]

/-- A value that is a code of a table and the bits after it. -/
def takeExtended (table : List (Nat × Nat)) (symbol : Nat) (bits : Bits) : Option (Nat × Bits) := do
  let (least, width) ← table[symbol]?
  let (extra, bits) ← takeNumber width bits
  return (least + extra, bits)

/-- Repeats what stands `distance` octets back. -/
def copyBack (distance : Nat) : (length : Nat) → Array UInt8 → Option (Array UInt8)
  | 0, out => some out
  | length + 1, out =>
    if distance ≤ out.size then
      match out[out.size - distance]? with
      | some b => copyBack distance length (out.push b)
      | none => none
    else none

/-- The symbols of one block up to its end. Each takes at least one bit. -/
def inflateSymbols (literals distances : PrefixCode) :
    (steps : Nat) → Array UInt8 → Bits → Option (Array UInt8 × Bits)
  | 0, _, _ => none
  | steps + 1, out, bits =>
    match literals.decode bits with
    | none => none
    | some (symbol, bits) =>
      if symbol < 256 then inflateSymbols literals distances steps (out.push symbol.toUInt8) bits
      else if symbol == 256 then some (out, bits)
      else
        let copied := do
          let (length, bits) ← takeExtended lengthCodes (symbol - 257) bits
          let (symbol, bits) ← distances.decode bits
          let (distance, bits) ← takeExtended distanceCodes symbol bits
          let out ← copyBack distance length out
          return (out, bits)
        match copied with
        | none => none
        | some (out, bits) => inflateSymbols literals distances steps out bits

def fixedLiterals : PrefixCode :=
  .ofLengths (List.replicate 144 8 ++ List.replicate 112 9 ++ List.replicate 24 7 ++ List.replicate 8 8)

def fixedDistances : PrefixCode := .ofLengths (List.replicate 32 5)

/-- The order in which the lengths of the code of code lengths are given. -/
def lengthOrder : List Nat := [16, 17, 18, 0, 8, 7, 9, 6, 10, 5, 11, 4, 12, 3, 13, 2, 14, 1, 15]

def takeNumbers (width : Nat) : (count : Nat) → Bits → Option (List Nat × Bits)
  | 0, bits => some ([], bits)
  | count + 1, bits => do
    let (n, bits) ← takeNumber width bits
    let (rest, bits) ← takeNumbers width count bits
    return (n :: rest, bits)

/-- Code lengths up to `wanted` of them, those read so far being held in reverse. Symbol 16 repeats the
length before it, 17 and 18 stand for runs of zeros. -/
def takeLengths (code : PrefixCode) (wanted : Nat) :
    (steps : Nat) → List Nat → Bits → Option (List Nat × Bits)
  | 0, _, _ => none
  | steps + 1, lengths, bits =>
    if wanted ≤ lengths.length then
      if lengths.length == wanted then some (lengths.reverse, bits) else none
    else
      match code.decode bits with
      | none => none
      | some (symbol, bits) =>
        if symbol < 16 then takeLengths code wanted steps (symbol :: lengths) bits
        else
          let run := match symbol with
            | 16 => (takeNumber 2 bits).bind fun (n, bits) => lengths.head?.map fun l => (n + 3, l, bits)
            | 17 => (takeNumber 3 bits).map fun (n, bits) => (n + 3, 0, bits)
            | _ => (takeNumber 7 bits).map fun (n, bits) => (n + 11, 0, bits)
          match run with
          | none => none
          | some (count, length, bits) =>
            takeLengths code wanted steps (List.replicate count length ++ lengths) bits

/-- A code may be incomplete only if it has no more than one symbol. -/
def isUsable (lengths : List Nat) : Bool :=
  (PrefixCode.ofLengths lengths).isComplete || decide ((lengths.filter (· != 0)).length ≤ 1)

/-- The two codes that a block brings with it. -/
def takeCodes (bits : Bits) : Option (PrefixCode × PrefixCode × Bits) := do
  let (literalCount, bits) ← takeNumber 5 bits
  let (distanceCount, bits) ← takeNumber 5 bits
  let (lengthCount, bits) ← takeNumber 4 bits
  let literalCount := literalCount + 257
  let distanceCount := distanceCount + 1
  if literalCount > 286 || distanceCount > 30 then none
  else
    let (given, bits) ← takeNumbers 3 (lengthCount + 4) bits
    let pairs := lengthOrder.zip given
    let code := PrefixCode.ofLengths ((List.range 19).map fun symbol => (pairs.lookup symbol).getD 0)
    if !code.isComplete then none
    else
      let wanted := literalCount + distanceCount
      let (lengths, bits) ← takeLengths code wanted (wanted + 1) [] bits
      let literals := lengths.take literalCount
      let distances := lengths.drop literalCount
      if !isUsable literals || !isUsable distances then none
      else some (.ofLengths literals, .ofLengths distances, bits)

def takeOctets : (count : Nat) → Array UInt8 → Bits → Option (Array UInt8 × Bits)
  | 0, out, bits => some (out, bits)
  | count + 1, out, bits =>
    match takeNumber 8 bits with
    | none => none
    | some (n, bits) => takeOctets count (out.push n.toUInt8) bits

/-- A block whose contents stand as they are, after their length and its complement. -/
def takeStored (bits : Bits) (out : Array UInt8) : Option (Array UInt8 × Bits) := do
  let (length, bits) ← takeNumber 16 (alignToOctet bits)
  let (complement, bits) ← takeNumber 16 bits
  if length + complement != 65535 then none
  else
    takeOctets length out bits

/-- The blocks up to the last one. Each takes at least three bits. -/
def inflateBlocks : (steps : Nat) → Array UInt8 → Bits → Option (Array UInt8 × Bits)
  | 0, _, _ => none
  | steps + 1, out, bits =>
    let block := do
      let (last, bits) ← takeNumber 1 bits
      let (kind, bits) ← takeNumber 2 bits
      let (out, bits) ← match kind with
        | 0 => takeStored bits out
        | 1 => inflateSymbols fixedLiterals fixedDistances (bits.length + 1) out bits
        | 2 => (takeCodes bits).bind fun (literals, distances, bits) =>
            inflateSymbols literals distances (bits.length + 1) out bits
        | _ => none
      return (last == 1, out, bits)
    match block with
    | none => none
    | some (last, out, bits) => if last then some (out, bits) else inflateBlocks steps out bits

/-- The unpacked data and the bits after it. -/
def inflate (bits : Bits) : Option (Octets × Bits) :=
  (inflateBlocks (bits.length + 1) #[] bits).map fun (out, rest) => (out.toList, rest)

end Gzip

end SourceCoverage
