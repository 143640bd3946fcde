import SourceCoverage.Gzip.Inflate

namespace SourceCoverage

namespace Gzip

/-- How a compressed file starts. -/
def magic : Octets := [0x1f, 0x8b]

/-- What follows a text that ends in a zero octet. -/
def afterZero? : Octets → Option Octets
  | [] => none
  | b :: rest => if b == 0 then some rest else afterZero? rest

def dropExactly? (count : Nat) (text : Octets) : Option Octets :=
  if count ≤ text.length then some (text.drop count) else none

/-- The further fields of a header: a field with its length, a name, a comment, a checksum of the
header itself. -/
def afterFields? (flags : UInt8) (file text : Octets) : Option Octets := do
  let text ← if flags &&& 4 == 0 then some text else
    match text with
    | low :: high :: rest => dropExactly? (low.toNat + 256 * high.toNat) rest
    | _ => none
  let text ← if flags &&& 8 == 0 then some text else afterZero? text
  let text ← if flags &&& 16 == 0 then some text else afterZero? text
  if flags &&& 2 == 0 then some text else
    let header := file.take (file.length - text.length)
    Octets.after? (littleEndian 2 (checksum header).toNat) text

/-- What follows the header. -/
def afterHeader? (file : Octets) : Option Octets :=
  match file with
  | 0x1f :: 0x8b :: 8 :: flags :: _ :: _ :: _ :: _ :: _ :: _ :: rest =>
    if flags &&& 0xe0 == 0 then afterFields? flags file rest else none
  | _ => none

/-- The contents of a compressed file, if they agree with their checksum and length. -/
def unpack? (file : Octets) : Option Octets := do
  let packed ← afterHeader? file
  let (contents, bits) ← inflate (Bits.ofOctets packed)
  let (sum, bits) ← takeNumber 32 (alignToOctet bits)
  let (length, _) ← takeNumber 32 bits
  if sum == (checksum contents).toNat && length == contents.length % 4294967296 then some contents else none

end Gzip

end SourceCoverage
