import Mustache.Context
import Mustache.Datum
import Mustache.Delimiters
import Mustache.Dictionary
import Mustache.Engine
import Mustache.Error
import Mustache.Error.Diagram
import Mustache.Flaw
import Mustache.Fragment
import Mustache.Html
import Mustache.Lexeme
import Mustache.Line
import Mustache.Node
import Mustache.Number.Binary
import Mustache.Number.Layout
import Mustache.Number.Shortest
import Mustache.Program
import Mustache.Proofs.Attribution
import Mustache.Proofs.BareSession
import Mustache.Proofs.Bookkeeping
import Mustache.Proofs.Boundaries
import Mustache.Proofs.Brackets
import Mustache.Proofs.Caching
import Mustache.Proofs.CaretRuns
import Mustache.Proofs.Carets
import Mustache.Proofs.CompilationLog
import Mustache.Proofs.Concatenation
import Mustache.Proofs.Congruence
import Mustache.Proofs.Documents
import Mustache.Proofs.DottedNames
import Mustache.Proofs.Elision
import Mustache.Proofs.Entities
import Mustache.Proofs.ErrorInvariants
import Mustache.Proofs.EscapedTags
import Mustache.Proofs.Evaluation
import Mustache.Proofs.Excerpts
import Mustache.Proofs.Flattening
import Mustache.Proofs.FlawPlaces
import Mustache.Proofs.Grammar
import Mustache.Proofs.Growth
import Mustache.Proofs.Headroom
import Mustache.Proofs.Indentation
import Mustache.Proofs.IndentedLines
import Mustache.Proofs.IndentedReading
import Mustache.Proofs.LambdaFree
import Mustache.Proofs.LivePairs
import Mustache.Proofs.NestedIndents
import Mustache.Proofs.NestedSections
import Mustache.Proofs.NestingBound
import Mustache.Proofs.Occurrence
import Mustache.Proofs.Outline
import Mustache.Proofs.Pairing
import Mustache.Proofs.Placement
import Mustache.Proofs.Plan
import Mustache.Proofs.Progress
import Mustache.Proofs.Reading
import Mustache.Proofs.Refinement
import Mustache.Proofs.SafeOutput
import Mustache.Proofs.Scanner
import Mustache.Proofs.Scanning
import Mustache.Proofs.SectionText
import Mustache.Proofs.Shifting
import Mustache.Proofs.Simulation
import Mustache.Proofs.Slicing
import Mustache.Proofs.SourceLines
import Mustache.Proofs.Stepwise
import Mustache.Proofs.Streaming
import Mustache.Proofs.StructuredViews
import Mustache.Proofs.Tiling
import Mustache.Proofs.TokenContents
import Mustache.Proofs.Unmentioned
import Mustache.Proofs.ValueEquality
import Mustache.Proofs.Verbatim
import Mustache.Proofs.Walking
import Mustache.Render.Basic
import Mustache.Render.Partial
import Mustache.Render.Program
import Mustache.Session
import Mustache.Sink
import Mustache.Template
import Mustache.Text.Blank
import Mustache.Text.Bytes
import Mustache.Text.Quoted
import Mustache.Text.Search
import Mustache.Text.Width
import Mustache.Text.Width.Classes
import Mustache.Text.Width.Emoji
import Mustache.Text.Width.Ligature
import Mustache.Token
import Mustache.Value
import Mustache.Value.Conversion
import Mustache.Value.Quoted
