import CallSig.Catalog
import CallSig.Catalog.Block
import CallSig.Decimal.Reading
import CallSig.Decimal.Shortest
import CallSig.Descriptor
import CallSig.Descriptor.Parser
import CallSig.Diagnostic
import CallSig.Dict
import CallSig.Expression
import CallSig.Json
import CallSig.Json.Reader
import CallSig.Layout
import CallSig.Lexeme
import CallSig.Lexeme.Pieces
import CallSig.Lexicon
import CallSig.Lexicon.Modules
import CallSig.Lexicon.Resolution
import CallSig.Overload
import CallSig.ParseError
import CallSig.Proofs.Catalog.Building
import CallSig.Proofs.Catalog.Independence
import CallSig.Proofs.Descriptor.Grammar
import CallSig.Proofs.Descriptor.Items
import CallSig.Proofs.Descriptor.Marks
import CallSig.Proofs.Descriptor.Names
import CallSig.Proofs.Lexeme.Cutting
import CallSig.Proofs.Lexeme.Nesting
import CallSig.Proofs.Lexeme.Reading
import CallSig.Proofs.Lexeme.Scanning
import CallSig.Proofs.Lexeme.Spelling
import CallSig.Proofs.Rendering.Line
import CallSig.Proofs.Rendering.RoundTrip
import CallSig.Proofs.Rendering.Types
import CallSig.Proofs.Resolution.Evolution
import CallSig.Proofs.Resolution.Installation
import CallSig.Proofs.Resolution.LateLoading
import CallSig.Proofs.Resolution.Meaning
import CallSig.Proofs.Resolution.Plan
import CallSig.Proofs.Resolution.Shadowing
import CallSig.Proofs.Resolution.Shape
import CallSig.Proofs.Resolution.Steps
import CallSig.Proofs.Text.Bytes
import CallSig.Proofs.Text.Trim
import CallSig.Proofs.Variant.Origin
import CallSig.Rendering
import CallSig.Report
import CallSig.Reserved
import CallSig.Settings
import CallSig.Settings.Printer
import CallSig.Settings.Reader
import CallSig.Span
import CallSig.Text.Alphabetic
import CallSig.Text.Basic
import CallSig.Text.Blank
import CallSig.Text.Numeral
import CallSig.Text.Quoted
import CallSig.Token
import CallSig.Toml
import CallSig.Toml.DateTime
import CallSig.TypeExpr
import CallSig.TypeShape
import CallSig.Value
import CallSig.Variant
import CallSig.Variant.Assembly
import CallSig.Vocabulary
import CallSig.Vocabulary.Baseline
import CallSig.Proofs.Descriptor.Acceptance
import CallSig.Proofs.Descriptor.Declares
import CallSig.Proofs.Variant.Alignment
import CallSig.Proofs.Catalog.Walk
import CallSig.Proofs.Catalog.Repetition
import CallSig.Proofs.Overload.Merging
import CallSig.Proofs.Catalog.Sessions
import CallSig.Proofs.Catalog.Rebuilding
import CallSig.Proofs.Resolution.Recursion
import CallSig.Proofs.Resolution.Idempotence
import CallSig.Proofs.Resolution.Misses
import CallSig.Proofs.Catalog.Warnings
import CallSig.Proofs.Overload.Origins
import CallSig.Proofs.Catalog.Findings
import CallSig.Proofs.Catalog.Blocks
import CallSig.Proofs.Catalog.Labels
import CallSig.Proofs.Catalog.Faults
import CallSig.Proofs.Overload.Groups
import CallSig.Proofs.Descriptor.Places
import CallSig.Proofs.Overload.Prefixes
import CallSig.Proofs.Resolution.Histories
import CallSig.Proofs.Resolution.Registrations
import CallSig.Proofs.Rendering.Legality
import CallSig.Proofs.Resolution.Likeness
import CallSig.Proofs.Expression
import CallSig.Proofs.Resolution.Defaults
import CallSig.Proofs.Resolution.Aliases
import CallSig.Proofs.Variant.Values
import CallSig.Proofs.Lexeme.Depth
import CallSig.Proofs.Lexeme.Literals
import CallSig.Proofs.Rendering.Pieces
import CallSig.Proofs.Variant.Hosts
import CallSig.Proofs.Rendering.Arguments
import CallSig.Proofs.Resolution.Vocabularies
import CallSig.Proofs.Resolution.Refreshing
import CallSig.Proofs.Catalog.Isolation
import CallSig.Proofs.Lexeme.Brackets
import CallSig.Proofs.Lexeme.Dotted
import CallSig.Proofs.Resolution.HostTokens
import CallSig.Proofs.Resolution.HostShapes
import CallSig.Proofs.Resolution.Reach
import CallSig.Proofs.Catalog.BracketDepth
import CallSig.Proofs.Rendering.Layouts
import CallSig.Proofs.Catalog.Strictness
import CallSig.Proofs.Resolution.Mentions
import CallSig.Proofs.Resolution.Variance
import CallSig.Proofs.Text.Collapse
import CallSig.Proofs.Text.Quoting
import CallSig.Proofs.Lexeme.Collapsing
import CallSig.Proofs.Resolution.Cuts
import CallSig.Proofs.Lexeme.Longest
import CallSig.Proofs.Lexeme.Tiling
import CallSig.Proofs.Lexeme.Splitting
import CallSig.Proofs.Variant.Rejection
import CallSig.Proofs.Expression.Integers
import CallSig.Proofs.Variant.Structure
import CallSig.Proofs.Lexeme.Slices
import CallSig.Proofs.Descriptor.Forms
import CallSig.Proofs.Descriptor.Spans
import CallSig.Proofs.Variant.Duplicates
import CallSig.Proofs.Resolution.Quoted
import CallSig.Proofs.Rendering.Quoting
