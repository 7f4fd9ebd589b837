import SigilTemplate.Batch
import SigilTemplate.Code.LoopHeader
import SigilTemplate.Corpus
import SigilTemplate.Diagnostic.Render
import SigilTemplate.Main
import SigilTemplate.Markup.Reader
import SigilTemplate.Metadata.Encoding
import SigilTemplate.Metadata.Survey
import SigilTemplate.Tree.Encoding
import SigilTemplate.Tree.Outline
import SigilTemplate.Tree.Tiling
import SigilTemplate.Proofs.Code.Extent
import SigilTemplate.Proofs.Markup.Run
import SigilTemplate.Proofs.Reading.Grammar
import SigilTemplate.Proofs.Reading.Attempt
import SigilTemplate.Proofs.Reading.Construct
import SigilTemplate.Proofs.Reading.Soundness
import SigilTemplate.Proofs.Tree.Escapes
import SigilTemplate.Proofs.Tree.Partition
import SigilTemplate.Proofs.Code.Rest
import SigilTemplate.Proofs.Reading.Locality
import SigilTemplate.Proofs.Reading.Loop
import SigilTemplate.Proofs.Reading.Progress
import SigilTemplate.Proofs.Bytes.Access
import SigilTemplate.Proofs.Bytes.Argument
import SigilTemplate.Proofs.Bytes.Arms
import SigilTemplate.Proofs.Bytes.Region
import SigilTemplate.Proofs.Bytes.Template
import SigilTemplate.Proofs.Tree.Spelling
import SigilTemplate.Proofs.Tree.Postorder
import SigilTemplate.Proofs.Reading.Recorded
import SigilTemplate.Proofs.Reading.Recoveries
import SigilTemplate.Proofs.Code.Deepening
import SigilTemplate.Proofs.Reading.Deepening
import SigilTemplate.Proofs.Reading.Depth
import SigilTemplate.Proofs.Ledger.Basic
import SigilTemplate.Proofs.Ledger.Reading
import SigilTemplate.Proofs.Ledger.Balance
import SigilTemplate.Proofs.Tree.TagNames
import SigilTemplate.Proofs.Tree.Braces
import SigilTemplate.Proofs.Reading.OpenTags
import SigilTemplate.Proofs.Alone.Template
import SigilTemplate.Proofs.Batch.Shares
import SigilTemplate.Proofs.Metadata.Accumulation
import SigilTemplate.Proofs.Tree.Faults
import SigilTemplate.Proofs.Outline.Determined
import SigilTemplate.Proofs.Tree.Conditionals
import SigilTemplate.Proofs.Tree.MatchArms
import SigilTemplate.Proofs.Tree.Header
import SigilTemplate.Proofs.Code.Commas
import SigilTemplate.Proofs.Code.TypeText
import SigilTemplate.Proofs.Tree.HeaderText
import SigilTemplate.Proofs.Text.Runs
import SigilTemplate.Proofs.Code.Lexemes
import SigilTemplate.Proofs.Bytes.Stack
import SigilTemplate.Proofs.Code.Nested
import SigilTemplate.Proofs.Tree.StringArguments
import SigilTemplate.Proofs.Tree.LiteralText
import SigilTemplate.Proofs.Tree.TextRuns
import SigilTemplate.Proofs.Code.TopLevel
import SigilTemplate.Proofs.Code.Heads
import SigilTemplate.Proofs.Code.Parts
import SigilTemplate.Proofs.Code.Chain
import SigilTemplate.Proofs.Outline.Printer
import SigilTemplate.Proofs.Outline.Layout
import SigilTemplate.Proofs.Tree.Slots
import SigilTemplate.Proofs.Tree.Walk
import SigilTemplate.Proofs.Tree.Coverage
import SigilTemplate.Proofs.Text.Lines
import SigilTemplate.Proofs.Corpus.Acceptance
import SigilTemplate.Proofs.Text.Position
import SigilTemplate.Proofs.Diagnostic.Snippet
import SigilTemplate.Proofs.Diagnostic.Rendered
import SigilTemplate.Proofs.Bytes.Place
import SigilTemplate.Proofs.Bytes.Highlight
import SigilTemplate.Proofs.Bytes.Diagnostic
import SigilTemplate.Proofs.Diagnostic.Colours
import SigilTemplate.Proofs.Text.Boundaries
import SigilTemplate.Proofs.Markup.QuotedRun
