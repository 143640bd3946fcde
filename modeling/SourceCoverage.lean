import SourceCoverage.Activity
import SourceCoverage.Main
import SourceCoverage.Proofs.Decision
import SourceCoverage.Proofs.Dialect
import SourceCoverage.Proofs.Finder.Accepted
import SourceCoverage.Proofs.Finder.Checkpoints
import SourceCoverage.Proofs.Finder.Leaves
import SourceCoverage.Proofs.Finder.Policy
import SourceCoverage.Proofs.Instrumented.Permuted
import SourceCoverage.Proofs.Instrumented.Reading
import SourceCoverage.Proofs.LineIndex.Correspondence
import SourceCoverage.Proofs.Lowering
import SourceCoverage.Proofs.ParseFault
import SourceCoverage.Proofs.Reuse.Again
import SourceCoverage.Proofs.Reuse.Independent
import SourceCoverage.Proofs.Stripping.Removal
import SourceCoverage.Proofs.Stripping.RoundTrip
import SourceCoverage.Workspace
