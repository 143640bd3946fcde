import SourceCoverage.Codec
import SourceCoverage.Proofs.Gzip

namespace SourceCoverage

/-- Packs without compression, and says little. -/
def Codec.storing : Codec where
  pack := Gzip.pack
  startsWith_pack _ := rfl
  unpack?_pack := Gzip.unpack?_pack
  archiveComplaint _ := "the stream cannot be unpacked"
  documentComplaint _ := "the text is not a document"
  settingsComplaint _ := "the text does not hold settings"

end SourceCoverage
