import SourceCoverage.Codec
import SourceCoverage.Document.Format

namespace SourceCoverage

/-- Why the contents of a file are no usable document. -/
inductive DocumentFault where
  | damagedArchive (complaint : String)
  | malformed (complaint : String)
  | unsupported (version : UInt32)
  | inconsistent (cause : Inconsistency)
deriving DecidableEq, Repr

def DocumentFault.message : DocumentFault → String
  | damagedArchive complaint => s!"corrupt gzip: {complaint}"
  | malformed complaint => s!"malformed CID: {complaint}"
  | unsupported version => s!"unsupported format version {version}"
  | inconsistent cause => cause.message

namespace Document

def file (codec : Codec) (d : Document) (compress : Bool) : Octets := if compress then codec.pack d.text else d.text

/-- The plain text of a file. -/
def plainText? (file : Octets) : Option Octets :=
  if Octets.startsWith Gzip.magic file then Gzip.unpack? file else some file

def ofFile (codec : Codec) (file : Octets) : Except DocumentFault Document :=
  match plainText? file with
  | none => .error (.damagedArchive (codec.archiveComplaint file))
  | some text =>
    match (Json.read? text).bind ofJson? with
    | none => .error (.malformed (codec.documentComplaint text))
    | some document =>
      if document.formatVersion != currentFormat then .error (.unsupported document.formatVersion)
      else
        match document.inconsistency? with
        | some cause => .error (.inconsistent cause)
        | none => .ok document

end Document

end SourceCoverage
