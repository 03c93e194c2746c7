import BlockScript.Arithmetic
import BlockScript.Text.CharSet
import BlockScript.Text.Alphabetic
import BlockScript.Text.Blank
import BlockScript.Text.Numeric
import BlockScript.Text.WordChar
import BlockScript.Text.Printable
import BlockScript.Text.Casing
import BlockScript.Text.Basic
import BlockScript.Text.Utf8
import BlockScript.Text.Quoted
import BlockScript.Decimal.Shortest
import BlockScript.Folder
import BlockScript.CharClass
import BlockScript.Keyword
import BlockScript.Lexeme
import BlockScript.Token
import BlockScript.Token.Reading
import BlockScript.Loop
import BlockScript.Lexer
import BlockScript.Scanner
import BlockScript.Grammar.Production
import BlockScript.Grammar.Precedence
import BlockScript.Grammar.Blocks
import BlockScript.Nesting.Profile
import BlockScript.Nesting.Search
import BlockScript.Nesting.Match
import BlockScript.Nesting.Closing
import BlockScript.Nesting.Indent
import BlockScript.Nesting.Names
import BlockScript.Sample
import BlockScript.Paint.Keywords
import BlockScript.Paint.Matcher
import BlockScript.Paint.Painter
import BlockScript.Lint.Report
import BlockScript.Lint.Diagnostic
import BlockScript.Lint.Session
import BlockScript.Lint.Shell
import BlockScript.Settings.Value
import BlockScript.Settings.Coercion
import BlockScript.Settings.Toml.Literal
import BlockScript.Settings.Toml.Document
import BlockScript.Settings.Loader
import BlockScript.Command.Json
import BlockScript.Command.Position
import BlockScript.Command.Arguments
import BlockScript.Command.Help
import BlockScript.Command.Run
import BlockScript.Main
import BlockScript.Proofs.TokenOrder
import BlockScript.Proofs.LineLookup
import BlockScript.Proofs.Scanning
import BlockScript.Proofs.TokenSearch
import BlockScript.Proofs.SearchSteps
import BlockScript.Proofs.FullParse
import BlockScript.Proofs.ScanLimit
import BlockScript.Proofs.LineLexing
import BlockScript.Proofs.IndentLevels
import BlockScript.Proofs.Reindent
import BlockScript.Proofs.TokenSpans
import BlockScript.Proofs.LineLocality
import BlockScript.Proofs.IndentFrame
import BlockScript.Proofs.SessionRuns
import BlockScript.Proofs.NamePairs
import BlockScript.Proofs.ClosingLine
import BlockScript.Proofs.PaintedRows
import BlockScript.Proofs.PaintedLiterals
import BlockScript.Proofs.TextBelow
import BlockScript.Proofs.ReportPrinting
import BlockScript.Proofs.IndentAgreement
import BlockScript.Proofs.BracketWords
import BlockScript.Proofs.MatchSymmetry
import BlockScript.Proofs.IndentNesting
import BlockScript.Proofs.ScanTransfer
import BlockScript.Proofs.RenamedLine
import BlockScript.Proofs.NameRepair
import BlockScript.Proofs.LexerTurns
import BlockScript.Proofs.KeywordLevels
import BlockScript.Proofs.KeywordRuns
import BlockScript.Proofs.LevelPatterns
import BlockScript.Proofs.PatternTexts
import BlockScript.Proofs.SiblingOrder
import BlockScript.Proofs.KeywordItself
import BlockScript.Proofs.ReportStreams
import BlockScript.Proofs.PlacedFindings
import BlockScript.Proofs.ClosingErrors
import BlockScript.Proofs.PaintedWords
import BlockScript.Proofs.LineColumns
import BlockScript.Proofs.StrippedComments
import BlockScript.Proofs.LoweredText
import BlockScript.Proofs.LetterCase
import BlockScript.Proofs.CheckedLexing
import BlockScript.Proofs.CheckedSearch
import BlockScript.Proofs.CheckedQueries
import BlockScript.Proofs.CheckedPainting
import BlockScript.Proofs.Alternatives
import BlockScript.Proofs.TableBuilding
import BlockScript.Proofs.Derivations
import BlockScript.Proofs.EqualChains
import BlockScript.Proofs.TableLoops
import BlockScript.Proofs.LimitedScans
import BlockScript.Proofs.StringLiterals
