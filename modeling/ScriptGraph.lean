import ScriptGraph.Builder.Basic
import ScriptGraph.Builder.Machine
import ScriptGraph.Builder.Pool
import ScriptGraph.Builder.Scope
import ScriptGraph.Command
import ScriptGraph.Error
import ScriptGraph.Graph.Basic
import ScriptGraph.Graph.Document
import ScriptGraph.Graph.Reachable
import ScriptGraph.Graph.Tree
import ScriptGraph.Json.Chars
import ScriptGraph.Json.Fault
import ScriptGraph.Json.Numeral
import ScriptGraph.Json.Reader
import ScriptGraph.Json.Value
import ScriptGraph.Lexeme
import ScriptGraph.Lexer.Basic
import ScriptGraph.Lexer.Breaks
import ScriptGraph.Lexer.Scan
import ScriptGraph.Lexer.Stream
import ScriptGraph.Lexicon
import ScriptGraph.Lexicon.Document
import ScriptGraph.Literal
import ScriptGraph.Location
import ScriptGraph.Main
import ScriptGraph.Message
import ScriptGraph.Number.Basic
import ScriptGraph.Number.Layout
import ScriptGraph.Number.Reading
import ScriptGraph.Number.Shortest
import ScriptGraph.Parser.Basic
import ScriptGraph.Parser.Grammar
import ScriptGraph.Parser.Reading
import ScriptGraph.Proofs.Acceptance
import ScriptGraph.Proofs.Building
import ScriptGraph.Proofs.Code
import ScriptGraph.Proofs.Evaluation
import ScriptGraph.Proofs.Lowering
import ScriptGraph.Proofs.Lowering.Meaning
import ScriptGraph.Proofs.Lowering.References
import ScriptGraph.Proofs.Machine
import ScriptGraph.Proofs.Meaning
import ScriptGraph.Proofs.Phrase
import ScriptGraph.Proofs.Phrase.Unambiguity
import ScriptGraph.Proofs.Reading
import ScriptGraph.Proofs.Reading.Completeness
import ScriptGraph.Proofs.Reading.Fuel
import ScriptGraph.Proofs.Reading.Soundness
import ScriptGraph.Proofs.Reading.Units
import ScriptGraph.Proofs.References
import ScriptGraph.Proofs.Resolution
import ScriptGraph.Proofs.Resolution.Frames
import ScriptGraph.Proofs.Sifting
import ScriptGraph.Proofs.SlotReuse
import ScriptGraph.Proofs.Transport
import ScriptGraph.Proofs.View
import ScriptGraph.Proofs.WellFormed
import ScriptGraph.Session
import ScriptGraph.Source.Cursor
import ScriptGraph.Source.Symbol
import ScriptGraph.Term
import ScriptGraph.Text.CodePoint
import ScriptGraph.Text.Colour
import ScriptGraph.Text.Column
import ScriptGraph.Text.Printable
import ScriptGraph.Text.Quoted
import ScriptGraph.Text.Utf8
import ScriptGraph.Token
import ScriptGraph.Proofs.Isolation.Graphs
import ScriptGraph.Proofs.Isolation
import ScriptGraph.Proofs.Scoping
import ScriptGraph.Proofs.Json.Scalars
import ScriptGraph.Proofs.Json.Containers
import ScriptGraph.Proofs.RoundTrip.Terms
import ScriptGraph.Proofs.RoundTrip
import ScriptGraph.Proofs.Scanning
import ScriptGraph.Proofs.Tiling
import ScriptGraph.Proofs.DecodingErrors
import ScriptGraph.Proofs.Layout
import ScriptGraph.Proofs.Numbers
import ScriptGraph.Proofs.Encoding
import ScriptGraph.Proofs.Literals.Forms
import ScriptGraph.Proofs.Literals.Content
import ScriptGraph.Proofs.Literals.Values
import ScriptGraph.Proofs.Literals
import ScriptGraph.Proofs.Parallel
import ScriptGraph.Proofs.Keywords
import ScriptGraph.Proofs.Windows
import ScriptGraph.Proofs.Comments.Stability
import ScriptGraph.Proofs.Comments.Extent
import ScriptGraph.Proofs.Comments
import ScriptGraph.Proofs.Updates
import ScriptGraph.Proofs.NormalForm
import ScriptGraph.Proofs.Pruning.Exactness
import ScriptGraph.Proofs.Scopes
import ScriptGraph.Proofs.Scopes.Slots
import ScriptGraph.Proofs.Scopes.Records
import ScriptGraph.Proofs.Scopes.Statements
import ScriptGraph.Proofs.Codec
import ScriptGraph.Proofs.Literals.Written
import ScriptGraph.Proofs.Strings
import ScriptGraph.Proofs.Characters
import ScriptGraph.Proofs.SelfAssignment
import ScriptGraph.Proofs.SelfAssignment.Referents
import ScriptGraph.Proofs.Numerals
import ScriptGraph.Proofs.Munching
import ScriptGraph.Proofs.Display.Labels
import ScriptGraph.Proofs.Display
import ScriptGraph.Proofs.Numbers.Text
import ScriptGraph.Proofs.Identifiers
import ScriptGraph.Proofs.Identifiers.Forms
import ScriptGraph.Proofs.Accounting
import ScriptGraph.Proofs.Pooling
