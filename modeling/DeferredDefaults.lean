import DeferredDefaults.Call.Bindings
import DeferredDefaults.Call.Fault
import DeferredDefaults.Call.Signature
import DeferredDefaults.Codec
import DeferredDefaults.Codec.DecodingReader
import DeferredDefaults.Coding
import DeferredDefaults.Expansion
import DeferredDefaults.Failure
import DeferredDefaults.Fault
import DeferredDefaults.LateBinding
import DeferredDefaults.Loader
import DeferredDefaults.Options
import DeferredDefaults.Options.Load
import DeferredDefaults.Page
import DeferredDefaults.Position
import DeferredDefaults.Proofs.Call.Binding
import DeferredDefaults.Proofs.Call.Building
import DeferredDefaults.Proofs.Call.LeftToRight
import DeferredDefaults.Proofs.Call.Prologue
import DeferredDefaults.Proofs.Call.Resolution
import DeferredDefaults.Proofs.Codec.Chunking
import DeferredDefaults.Proofs.Codec.Naming
import DeferredDefaults.Proofs.Codec.Registry
import DeferredDefaults.Proofs.Codec.Retrying
import DeferredDefaults.Proofs.Coding.Header
import DeferredDefaults.Proofs.Coding.Pattern
import DeferredDefaults.Proofs.Coding.Preface
import DeferredDefaults.Proofs.Coding.Printing
import DeferredDefaults.Proofs.Coding.Tokens
import DeferredDefaults.Proofs.Coding.Writing
import DeferredDefaults.Proofs.Expansion.Agreement
import DeferredDefaults.Proofs.Expansion.Declaration
import DeferredDefaults.Proofs.Expansion.Docstrings
import DeferredDefaults.Proofs.Expansion.Faithful
import DeferredDefaults.Proofs.Expansion.Grouping
import DeferredDefaults.Proofs.Expansion.SigilFree
import DeferredDefaults.Proofs.Expansion.Withheld
import DeferredDefaults.Proofs.LateBinding.Dependencies
import DeferredDefaults.Proofs.LateBinding.Exhaustive
import DeferredDefaults.Proofs.LateBinding.Printing
import DeferredDefaults.Proofs.LateBinding.Rejection
import DeferredDefaults.Proofs.LateBinding.Relocation
import DeferredDefaults.Proofs.LateBinding.Trivia
import DeferredDefaults.Proofs.LateBinding.Unmarked
import DeferredDefaults.Proofs.Page.Continuation
import DeferredDefaults.Proofs.Page.Deferral
import DeferredDefaults.Proofs.Page.Growth
import DeferredDefaults.Proofs.Page.Heading
import DeferredDefaults.Proofs.Page.ParameterList
import DeferredDefaults.Proofs.Page.Placement
import DeferredDefaults.Proofs.Page.Progress
import DeferredDefaults.Proofs.Page.Rows
import DeferredDefaults.Proofs.Page.Saying
import DeferredDefaults.Proofs.Page.Statements
import DeferredDefaults.Proofs.Page.Typesetting
import DeferredDefaults.Proofs.Page.Withholding
import DeferredDefaults.Proofs.Sigil.Alignment
import DeferredDefaults.Proofs.Sigil.Confinement
import DeferredDefaults.Proofs.Sigil.Forward
import DeferredDefaults.Proofs.Sigil.MarkedText
import DeferredDefaults.Proofs.Sigil.Rewriting
import DeferredDefaults.Proofs.Sigil.Scan
import DeferredDefaults.Proofs.Success
import DeferredDefaults.Proofs.Text.Decoding
import DeferredDefaults.Proofs.Text.Encoding
import DeferredDefaults.Proofs.Text.Fragments
import DeferredDefaults.Proofs.Token.CarriageReturns
import DeferredDefaults.Proofs.Token.Copy
import DeferredDefaults.Proofs.Token.Edges
import DeferredDefaults.Proofs.Token.Exactness
import DeferredDefaults.Proofs.Token.Fences
import DeferredDefaults.Proofs.Token.Identifier
import DeferredDefaults.Proofs.Token.Indentation
import DeferredDefaults.Proofs.Token.LineEndings
import DeferredDefaults.Proofs.Token.Lookahead
import DeferredDefaults.Proofs.Token.Margins
import DeferredDefaults.Proofs.Token.Nesting
import DeferredDefaults.Proofs.Token.Quotation
import DeferredDefaults.Proofs.Token.Reading
import DeferredDefaults.Proofs.Token.Relaying
import DeferredDefaults.Proofs.Token.Restoring
import DeferredDefaults.Proofs.Token.Spacing
import DeferredDefaults.Proofs.Token.Stepping
import DeferredDefaults.Proofs.Token.Tiling
import DeferredDefaults.Proofs.Token.Tripled
import DeferredDefaults.Proofs.Token.Writing
import DeferredDefaults.Proofs.Tree.Completion
import DeferredDefaults.Proofs.Tree.Coverage
import DeferredDefaults.Proofs.Tree.Headline
import DeferredDefaults.Proofs.Tree.Lossless
import DeferredDefaults.Proofs.Tree.Nodes
import DeferredDefaults.Proofs.Tree.ParameterKinds
import DeferredDefaults.Proofs.Tree.Recognition
import DeferredDefaults.Proofs.Tree.Reconstruction
import DeferredDefaults.Proofs.Tree.Relocation
import DeferredDefaults.Proofs.Tree.Separation
import DeferredDefaults.Sigil
import DeferredDefaults.Text.Blank
import DeferredDefaults.Text.Identifier
import DeferredDefaults.Text.Quoted
import DeferredDefaults.Text.Ranges
import DeferredDefaults.Text.Utf8
import DeferredDefaults.Text.Word
import DeferredDefaults.Token
import DeferredDefaults.Token.Layout
import DeferredDefaults.Token.Lexeme
import DeferredDefaults.Token.SourceText
import DeferredDefaults.Toml.Document
import DeferredDefaults.Toml.Node
import DeferredDefaults.Toml.Number
import DeferredDefaults.Toml.Text
import DeferredDefaults.Tree
import DeferredDefaults.Tree.Items
import DeferredDefaults.Tree.MarkerCall
import DeferredDefaults.Tree.Parameters
import DeferredDefaults.Tree.Reader
import DeferredDefaults.Tree.Row
