import IngestPipeline.Main
import IngestPipeline.Proofs.Grouping
import IngestPipeline.Proofs.Run
import IngestPipeline.Proofs.Conservation
import IngestPipeline.Proofs.Acceptance
import IngestPipeline.Proofs.JsonText
import IngestPipeline.Proofs.Rendering
import IngestPipeline.Proofs.Trace
import IngestPipeline.Proofs.Reading
import IngestPipeline.Proofs.Wrapping
import IngestPipeline.Proofs.ListOption
import IngestPipeline.Proofs.Occurrence
import IngestPipeline.Proofs.DateTokens
import IngestPipeline.Proofs.DateReading
import IngestPipeline.Proofs.DateStability
import IngestPipeline.Proofs.Operands
import IngestPipeline.Proofs.Extraction
import IngestPipeline.Proofs.Tokenization
import IngestPipeline.Proofs.DateInversion
import IngestPipeline.Proofs.LetterRuns
import IngestPipeline.Proofs.QuotedArguments
import IngestPipeline.Proofs.QuotedLiterals
import IngestPipeline.Proofs.UnguardedRuns
import IngestPipeline.Proofs.Nesting
import IngestPipeline.Proofs.OptionOrder
import IngestPipeline.Proofs.Operators
import IngestPipeline.Proofs.Definitions
import IngestPipeline.Proofs.Encoding
import IngestPipeline.Proofs.Spelling
import IngestPipeline.Proofs.Templates
import IngestPipeline.Proofs.Untagging
import IngestPipeline.Proofs.Files
import IngestPipeline.Proofs.Invocation
