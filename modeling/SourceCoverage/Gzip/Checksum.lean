import SourceCoverage.Octets

namespace SourceCoverage

namespace Gzip

def checksumBit (c : UInt32) : UInt32 := if c &&& 1 == 1 then (c >>> 1) ^^^ 0xEDB88320 else c >>> 1

def checksumOctet (c : UInt32) (b : UInt8) : UInt32 := Nat.repeat checksumBit 8 (c ^^^ b.toUInt32)

def checksum (text : Octets) : UInt32 := text.foldl checksumOctet 0xFFFFFFFF ^^^ 0xFFFFFFFF

/-- The lowest octets of a number, lowest first. -/
def littleEndian : (width n : Nat) → Octets
  | 0, _ => []
  | width + 1, n => n.toUInt8 :: littleEndian width (n / 256)

end Gzip

end SourceCoverage
