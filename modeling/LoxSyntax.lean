import LoxSyntax.Command.Arguments
import LoxSyntax.Command.Files
import LoxSyntax.Command.Path
import LoxSyntax.Command.Run
import LoxSyntax.Command.Settings
import LoxSyntax.Command.Usage
import LoxSyntax.Diagnostic.Basic
import LoxSyntax.Diagnostic.Source
import LoxSyntax.Editor.Mark
import LoxSyntax.Editor.Workspace
import LoxSyntax.Expr.Basic
import LoxSyntax.Expr.Printing
import LoxSyntax.Expr.Reader
import LoxSyntax.Expr.TokenCursor
import LoxSyntax.Host
import LoxSyntax.Lexeme.Basic
import LoxSyntax.Lexeme.Reading
import LoxSyntax.Lexeme.Scan
import LoxSyntax.Main
import LoxSyntax.Number.Decimal
import LoxSyntax.Number.Double
import LoxSyntax.Number.Numeral
import LoxSyntax.Number.Shortest
import LoxSyntax.Proofs.Command.Crashes
import LoxSyntax.Proofs.Command.FileTree
import LoxSyntax.Proofs.Command.Outcome
import LoxSyntax.Proofs.Command.OutputOptions
import LoxSyntax.Proofs.Command.Precedence
import LoxSyntax.Proofs.Command.Rendering
import LoxSyntax.Proofs.Command.Setup
import LoxSyntax.Proofs.Diagnostic.Caret
import LoxSyntax.Proofs.Diagnostic.Concatenation
import LoxSyntax.Proofs.Diagnostic.FurtherDown
import LoxSyntax.Proofs.Diagnostic.LineEnds
import LoxSyntax.Proofs.Diagnostic.ReportedToken
import LoxSyntax.Proofs.Editor.Histories
import LoxSyntax.Proofs.Editor.Marks
import LoxSyntax.Proofs.Expr.Absorption
import LoxSyntax.Proofs.Expr.BodyOnly
import LoxSyntax.Proofs.Expr.Calls
import LoxSyntax.Proofs.Expr.Completeness
import LoxSyntax.Proofs.Expr.CursorProgress
import LoxSyntax.Proofs.Expr.DepthCounter
import LoxSyntax.Proofs.Expr.Descent
import LoxSyntax.Proofs.Expr.DescentOutcome
import LoxSyntax.Proofs.Expr.FirstFault
import LoxSyntax.Proofs.Expr.LeftOpen
import LoxSyntax.Proofs.Expr.Lines
import LoxSyntax.Proofs.Expr.NormalForm
import LoxSyntax.Proofs.Expr.OpenFrames
import LoxSyntax.Proofs.Expr.Openings
import LoxSyntax.Proofs.Expr.OutlineLines
import LoxSyntax.Proofs.Expr.OutlineReading
import LoxSyntax.Proofs.Expr.OutlineRows
import LoxSyntax.Proofs.Expr.OverlargeNumbers
import LoxSyntax.Proofs.Expr.PrefixReading
import LoxSyntax.Proofs.Expr.PrintingRoom
import LoxSyntax.Proofs.Expr.Progress
import LoxSyntax.Proofs.Expr.Relabeling
import LoxSyntax.Proofs.Expr.SecondExpression
import LoxSyntax.Proofs.Expr.SingleExpression
import LoxSyntax.Proofs.Expr.Soundness
import LoxSyntax.Proofs.Expr.SourceTrees
import LoxSyntax.Proofs.Expr.StoppingPlace
import LoxSyntax.Proofs.Lexeme.Division
import LoxSyntax.Proofs.Lexeme.EveryPoint
import LoxSyntax.Proofs.Lexeme.FaultPlace
import LoxSyntax.Proofs.Lexeme.Layout
import LoxSyntax.Proofs.Lexeme.Passes
import LoxSyntax.Proofs.Lexeme.Rendering
import LoxSyntax.Proofs.Lexeme.Restart
import LoxSyntax.Proofs.Lexeme.Returns
import LoxSyntax.Proofs.Lexeme.Spelling
import LoxSyntax.Proofs.Lexeme.TokenPlace
import LoxSyntax.Proofs.Lexeme.Uniqueness
import LoxSyntax.Proofs.Lexeme.Walk
import LoxSyntax.Proofs.Lexeme.WalkedLexemes
import LoxSyntax.Proofs.Number.DecimalValue
import LoxSyntax.Proofs.Number.IntegerRange
import LoxSyntax.Proofs.Number.PlainNumeral
import LoxSyntax.Proofs.Number.ShortestText
import LoxSyntax.Proofs.Text.LineBreaks
import LoxSyntax.Proofs.Text.NumberedLines
import LoxSyntax.Proofs.Text.QuotedText
import LoxSyntax.Proofs.Text.Returns
import LoxSyntax.Proofs.Text.Runs
import LoxSyntax.Proofs.Text.Utf8
import LoxSyntax.Proofs.Token.Listing
import LoxSyntax.Text.CharClass
import LoxSyntax.Text.Line
import LoxSyntax.Text.Position
import LoxSyntax.Text.Quoted
import LoxSyntax.Text.Utf8
import LoxSyntax.Token.Basic
import LoxSyntax.Token.Kind
import LoxSyntax.Toml.Document
import LoxSyntax.Toml.Reader
import LoxSyntax.Toml.Scalar
import LoxSyntax.Toml.Value
