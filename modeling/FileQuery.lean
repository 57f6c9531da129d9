import FileQuery.Amount
import FileQuery.Builder
import FileQuery.Canonical
import FileQuery.Command
import FileQuery.CommandLine
import FileQuery.CommandLine.Arguments
import FileQuery.Decimal
import FileQuery.Error
import FileQuery.Expression
import FileQuery.Json
import FileQuery.Json.Encoding
import FileQuery.Lexer
import FileQuery.Log
import FileQuery.Main
import FileQuery.Mode
import FileQuery.Parser
import FileQuery.Parser.Report
import FileQuery.Parser.State
import FileQuery.Position
import FileQuery.Query
import FileQuery.Query.Reading
import FileQuery.Reduction
import FileQuery.Session
import FileQuery.Settings
import FileQuery.Text.Blank
import FileQuery.Text.DefaultIgnorable
import FileQuery.Text.GraphemeExtend
import FileQuery.Text.Quoted
import FileQuery.Text.Unprintable
import FileQuery.Token
import FileQuery.TokenKind
import FileQuery.TokenSource
import FileQuery.Vocabulary
import FileQuery.Word
import FileQuery.Word.Quoting
import FileQuery.Proofs.Amount
import FileQuery.Proofs.Blame
import FileQuery.Proofs.Canonical.Fewest
import FileQuery.Proofs.Canonical.Legible
import FileQuery.Proofs.Canonical.Regrouping
import FileQuery.Proofs.Canonical.Tokens
import FileQuery.Proofs.CommandWord
import FileQuery.Proofs.Commands
import FileQuery.Proofs.Conservation
import FileQuery.Proofs.Descent
import FileQuery.Proofs.Descent.Course
import FileQuery.Proofs.Descent.Depth
import FileQuery.Proofs.Descent.Heights
import FileQuery.Proofs.EndOfInput
import FileQuery.Proofs.Expression
import FileQuery.Proofs.Grammar
import FileQuery.Proofs.Json.Decoding
import FileQuery.Proofs.Json.Readers
import FileQuery.Proofs.Lexemes
import FileQuery.Proofs.Listener
import FileQuery.Proofs.LongerText
import FileQuery.Proofs.ModeLeft
import FileQuery.Proofs.Parentheses
import FileQuery.Proofs.Parser.Completeness
import FileQuery.Proofs.Parser.Completion
import FileQuery.Proofs.Parser.Feed
import FileQuery.Proofs.Parser.Kept
import FileQuery.Proofs.Parser.Limit
import FileQuery.Proofs.Parser.Reducing
import FileQuery.Proofs.Parser.Refusal
import FileQuery.Proofs.Parser.Report
import FileQuery.Proofs.Parser.Room
import FileQuery.Proofs.Parser.Soundness
import FileQuery.Proofs.Parser.Step
import FileQuery.Proofs.Parser.Unplaced
import FileQuery.Proofs.Parser.Unreported
import FileQuery.Proofs.Observer
import FileQuery.Proofs.Placement
import FileQuery.Proofs.Position
import FileQuery.Proofs.Position.Order
import FileQuery.Proofs.Postorder
import FileQuery.Proofs.QuotedWord
import FileQuery.Proofs.Reading
import FileQuery.Proofs.Recognition
import FileQuery.Proofs.Replay
import FileQuery.Proofs.Requests
import FileQuery.Proofs.RoundTrip
import FileQuery.Proofs.SameWords
import FileQuery.Proofs.Session
import FileQuery.Proofs.Spans
import FileQuery.Proofs.StringArgument
import FileQuery.Proofs.Tokenizer
import FileQuery.Proofs.TwoLimits
import FileQuery.Proofs.Viable
import FileQuery.Proofs.WellFormed
import FileQuery.Proofs.WithinLimit
import FileQuery.Proofs.Word.Quoting
import FileQuery.Proofs.Word.Segments
import FileQuery.Proofs.Word.Splitting
