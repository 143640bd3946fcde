import SourceCoverage.Gzip.Archive

namespace SourceCoverage

namespace Gzip

def largestBlock : Nat := 65535

/-- One block whose contents stand as they are. -/
def storedBlock (last : Bool) (contents : Octets) : Octets :=
  last.toUInt8 :: littleEndian 2 contents.length ++ littleEndian 2 (65535 - contents.length) ++ contents

/-- The blocks of a text; there is always a last one. -/
def storedBlocks : (steps : Nat) → Octets → Octets
  | 0, text => storedBlock true text
  | steps + 1, text =>
    match text.drop largestBlock with
    | [] => storedBlock true text
    | rest => storedBlock false (text.take largestBlock) ++ storedBlocks steps rest

/-- A compressed file without any compression. -/
def pack (text : Octets) : Octets :=
  magic ++ [8, 0, 0, 0, 0, 0, 0, 255] ++ storedBlocks text.length text ++
    littleEndian 4 (checksum text).toNat ++ littleEndian 4 text.length

end Gzip

end SourceCoverage
