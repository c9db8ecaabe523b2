import CucumberExpression.Diagnostic
import CucumberExpression.Error
import CucumberExpression.Expression
import CucumberExpression.Glyph
import CucumberExpression.Item
import CucumberExpression.Json.Basic
import CucumberExpression.Json.Reader
import CucumberExpression.Json.Writer
import CucumberExpression.Markup
import CucumberExpression.Node.Basic
import CucumberExpression.Node.Describe
import CucumberExpression.Node.Serialized
import CucumberExpression.Node.Outline
import CucumberExpression.Node.Traversal
import CucumberExpression.Number.Binary64
import CucumberExpression.Number.Integer
import CucumberExpression.Number.Shortest
import CucumberExpression.Proofs.Acceptance
import CucumberExpression.Proofs.Canonical
import CucumberExpression.Proofs.Carets
import CucumberExpression.Proofs.Concatenation
import CucumberExpression.Proofs.Descendants
import CucumberExpression.Proofs.Dispatch
import CucumberExpression.Proofs.Documents
import CucumberExpression.Proofs.EscapedPositions
import CucumberExpression.Proofs.Escaping
import CucumberExpression.Proofs.Faults
import CucumberExpression.Proofs.Folds
import CucumberExpression.Proofs.Items
import CucumberExpression.Proofs.Labels
import CucumberExpression.Proofs.Lexemes
import CucumberExpression.Proofs.Marks
import CucumberExpression.Proofs.Nesting
import CucumberExpression.Proofs.Numerals
import CucumberExpression.Proofs.Ordering
import CucumberExpression.Proofs.Partition
import CucumberExpression.Proofs.PlainText
import CucumberExpression.Proofs.Preorder
import CucumberExpression.Proofs.Quotations
import CucumberExpression.Proofs.QuotedText
import CucumberExpression.Proofs.ReaderSteps
import CucumberExpression.Proofs.Reading
import CucumberExpression.Proofs.Reconstruction
import CucumberExpression.Proofs.Relocation
import CucumberExpression.Proofs.Rendering
import CucumberExpression.Proofs.Repair
import CucumberExpression.Proofs.Replacements
import CucumberExpression.Proofs.Rereading
import CucumberExpression.Proofs.RoundTrip
import CucumberExpression.Proofs.Runs
import CucumberExpression.Proofs.Samples
import CucumberExpression.Proofs.Seams
import CucumberExpression.Proofs.Serialization
import CucumberExpression.Proofs.Shape
import CucumberExpression.Proofs.Spacing
import CucumberExpression.Proofs.Stages
import CucumberExpression.Proofs.Stopping
import CucumberExpression.Proofs.Tags
import CucumberExpression.Proofs.Tiling
import CucumberExpression.Proofs.Tokenization
import CucumberExpression.Proofs.TreeRow
import CucumberExpression.Proofs.Trees
import CucumberExpression.Proofs.Utf8
import CucumberExpression.Proofs.Visits
import CucumberExpression.Proofs.Words
import CucumberExpression.Sample
import CucumberExpression.Text.CodePoint
import CucumberExpression.Text.Encoding
import CucumberExpression.Text.Hexadecimal
import CucumberExpression.Text.Quoted
import CucumberExpression.Text.Surrogate
import CucumberExpression.Token.Basic
import CucumberExpression.Token.Comparison
import CucumberExpression.Visitor
import CucumberExpression.Word
