import PascalTokens.Catalog
import PascalTokens.CharSet
import PascalTokens.Command
import PascalTokens.Disk
import PascalTokens.Error
import PascalTokens.Expression.AutomatonSize
import PascalTokens.Expression.Basic
import PascalTokens.Expression.Matching
import PascalTokens.Expression.Text
import PascalTokens.Failure
import PascalTokens.Kind
import PascalTokens.Lexer
import PascalTokens.Line
import PascalTokens.LineSource
import PascalTokens.Listing
import PascalTokens.Log
import PascalTokens.Logger
import PascalTokens.Main
import PascalTokens.Matcher
import PascalTokens.Output
import PascalTokens.Pascal.Expressions
import PascalTokens.Pascal.Rules
import PascalTokens.Pascal.Words
import PascalTokens.Pattern.Basic
import PascalTokens.Pattern.Combinators
import PascalTokens.Place
import PascalTokens.Program
import PascalTokens.Proofs.Acceptance
import PascalTokens.Proofs.CaseFolding
import PascalTokens.Proofs.Coverage
import PascalTokens.Proofs.Cuts
import PascalTokens.Proofs.Expression.CharSets
import PascalTokens.Proofs.Expression.Choices
import PascalTokens.Proofs.Expression.Meanings
import PascalTokens.Proofs.Expression.Reading
import PascalTokens.Proofs.Expression.Sizes
import PascalTokens.Proofs.Expression.Trees
import PascalTokens.Proofs.Expression.Words
import PascalTokens.Proofs.Faults
import PascalTokens.Proofs.Groups
import PascalTokens.Proofs.Invocations
import PascalTokens.Proofs.Joins
import PascalTokens.Proofs.Layout.Lexemes
import PascalTokens.Proofs.Layout.Lines
import PascalTokens.Proofs.Layout.Texts
import PascalTokens.Proofs.LetterCase
import PascalTokens.Proofs.LineByLine
import PascalTokens.Proofs.LineEnds
import PascalTokens.Proofs.Listings
import PascalTokens.Proofs.Losses
import PascalTokens.Proofs.Matches
import PascalTokens.Proofs.Misfits
import PascalTokens.Proofs.Offsets
import PascalTokens.Proofs.OnePass
import PascalTokens.Proofs.Pascal.Braces
import PascalTokens.Proofs.Pascal.Characters
import PascalTokens.Proofs.Pascal.Comments
import PascalTokens.Proofs.Pascal.Expressions
import PascalTokens.Proofs.Pascal.FirstLexemes
import PascalTokens.Proofs.Pascal.Fragments
import PascalTokens.Proofs.Pascal.Letters
import PascalTokens.Proofs.Pascal.Lexemes
import PascalTokens.Proofs.Pascal.Numbers
import PascalTokens.Proofs.Pascal.Punctuation
import PascalTokens.Proofs.Pascal.StringTokens
import PascalTokens.Proofs.Pascal.Strings
import PascalTokens.Proofs.Pascal.Words
import PascalTokens.Proofs.Pattern.Alphabets
import PascalTokens.Proofs.Pattern.Characters
import PascalTokens.Proofs.Pattern.Ends
import PascalTokens.Proofs.Pattern.Language
import PascalTokens.Proofs.Pattern.Preference
import PascalTokens.Proofs.Pattern.Prefixes
import PascalTokens.Proofs.Pieces
import PascalTokens.Proofs.Places
import PascalTokens.Proofs.Reading.Buffer
import PascalTokens.Proofs.Reading.Calls
import PascalTokens.Proofs.Reading.Decoding
import PascalTokens.Proofs.Reading.Encoding
import PascalTokens.Proofs.Reading.Events
import PascalTokens.Proofs.Reading.Newlines
import PascalTokens.Proofs.Records
import PascalTokens.Proofs.Scanner
import PascalTokens.Proofs.Search
import PascalTokens.Proofs.Selection
import PascalTokens.Proofs.Sinks
import PascalTokens.Proofs.Stability
import PascalTokens.Proofs.Streams
import PascalTokens.Proofs.Summaries
import PascalTokens.Read
import PascalTokens.Resolution
import PascalTokens.Sink
import PascalTokens.Source
import PascalTokens.Terminal
import PascalTokens.Text
import PascalTokens.Token
import PascalTokens.Unicode.ByteRanges
import PascalTokens.Unicode.CaseFolding
import PascalTokens.Unicode.DecimalDigit
import PascalTokens.Unicode.WhiteSpace
import PascalTokens.Unicode.WordCharacter
