import SourceCoverage.Gzip.Archive

namespace SourceCoverage

/-- What is left to the libraries by which files are written and read. A text may be packed in any way that unpacking
undoes, and what is refused may be refused in any words. -/
structure Codec where
  pack : Octets → Octets
  startsWith_pack : ∀ text, Octets.startsWith Gzip.magic (pack text) = true
  unpack?_pack : ∀ text, Gzip.unpack? (pack text) = some text
  /-- What is said of a stream that cannot be unpacked. -/
  archiveComplaint : Octets → String
  /-- What is said of a text that is no document. -/
  documentComplaint : Octets → String
  /-- What is said of a text that holds no settings. -/
  settingsComplaint : String → String

end SourceCoverage
