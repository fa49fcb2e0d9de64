import StagedScript.Builtin.Function
import StagedScript.Builtin.Mathematics
import StagedScript.Builtin.Method
import StagedScript.Builtin.Reading
import StagedScript.Builtin.Sorting
import StagedScript.Builtin.Table
import StagedScript.CommandLine.Arguments
import StagedScript.CommandLine.Command
import StagedScript.CommandLine.Execution
import StagedScript.CommandLine.Value
import StagedScript.Compile.Compilation
import StagedScript.Compile.Options
import StagedScript.Compile.OptionsText
import StagedScript.Compile.ResultsText
import StagedScript.Compile.Source
import StagedScript.Decimal.Binary
import StagedScript.Decimal.Notation
import StagedScript.Decimal.Reading
import StagedScript.Decimal.Shortest
import StagedScript.Evaluation.Expression
import StagedScript.Evaluation.Program
import StagedScript.Evaluation.Statement
import StagedScript.Machine.Basic
import StagedScript.Machine.Operator
import StagedScript.Main
import StagedScript.Module.Cache
import StagedScript.Module.FileTree
import StagedScript.Module.Path
import StagedScript.Proofs.Machine.Builtin
import StagedScript.Proofs.Machine.Evaluation
import StagedScript.Proofs.Machine.Fixed
import StagedScript.Proofs.Machine.Keeps
import StagedScript.Proofs.Machine.Operator
import StagedScript.Proofs.Machine.Program
import StagedScript.Proofs.Machine.Sound
import StagedScript.Proofs.Machine.Statement
import StagedScript.Proofs.Staging.Calls
import StagedScript.Proofs.Staging.Faithful
import StagedScript.Proofs.Staging.Table
import StagedScript.Proofs.Syntax.Binding
import StagedScript.Rewriting.Annotation
import StagedScript.Rewriting.Body
import StagedScript.Rewriting.Literal
import StagedScript.Rewriting.MarkerNames
import StagedScript.Rewriting.Module
import StagedScript.Staging.Expansion
import StagedScript.Staging.Failure
import StagedScript.Staging.Marker
import StagedScript.Staging.Precompute
import StagedScript.Staging.Registration
import StagedScript.Staging.Results
import StagedScript.Syntax.Diagnostic
import StagedScript.Syntax.Fault
import StagedScript.Syntax.Lexer
import StagedScript.Syntax.Parser.Basic
import StagedScript.Syntax.Parser.Expression
import StagedScript.Syntax.Parser.Formatted
import StagedScript.Syntax.Parser.Statement
import StagedScript.Syntax.Printer
import StagedScript.Syntax.Token
import StagedScript.Syntax.Tree
import StagedScript.Text.Blank
import StagedScript.Text.Casing
import StagedScript.Text.Letter
import StagedScript.Text.Printable
import StagedScript.Text.Quoted
import StagedScript.Text.Ranges
import StagedScript.Text.Repetition
import StagedScript.Text.Search
import StagedScript.Text.Span
import StagedScript.Value.Arithmetic
import StagedScript.Value.Basic
import StagedScript.Value.Builtin
import StagedScript.Value.Comparison
import StagedScript.Value.Datum
import StagedScript.Value.Exception
import StagedScript.Value.Fault
import StagedScript.Value.Heap
import StagedScript.Proofs.Machine.Regime
import StagedScript.Proofs.Machine.Regime.Builtin
import StagedScript.Proofs.Machine.Regime.Evaluation
import StagedScript.Proofs.Machine.Regime.Program
import StagedScript.Proofs.Staging.Balance
import StagedScript.Proofs.Compile.Inlining
import StagedScript.Proofs.Decimal.Comparison
import StagedScript.Proofs.Decimal.Double
import StagedScript.Proofs.Machine.Places
import StagedScript.Proofs.Rewriting.Literal
import StagedScript.Proofs.Rewriting.Lookup
import StagedScript.Proofs.Rewriting.Matching
import StagedScript.Proofs.Rewriting.Subject
import StagedScript.Proofs.Rewriting.Success
import StagedScript.Proofs.Module.History
import StagedScript.Proofs.Machine.Loading
import StagedScript.Proofs.Staging.ModuleSafety
import StagedScript.Proofs.Syntax.PatternText
import StagedScript.Proofs.Syntax.Rows
import StagedScript.Proofs.Syntax.StatementText
import StagedScript.Proofs.Syntax.LineLexing
import StagedScript.Proofs.Syntax.ScannedTokens
import StagedScript.Proofs.Syntax.Agreement
import StagedScript.Proofs.Syntax.ExpressionAgreement
import StagedScript.Proofs.Syntax.StatementAgreement
import StagedScript.Proofs.Syntax.Layout
import StagedScript.Proofs.Syntax.PatternReading
import StagedScript.Proofs.Syntax.LineReading
import StagedScript.Proofs.Syntax.StatementReading
import StagedScript.Proofs.Syntax.ModuleRoundTrip
import StagedScript.Proofs.Rewriting.Again
import StagedScript.Proofs.Syntax.SignedRoundTrip
import StagedScript.Proofs.Syntax.PlainText
import StagedScript.Proofs.Syntax.Comments
import StagedScript.Proofs.Syntax.Gathering
import StagedScript.Proofs.Syntax.ExpressionGathering
import StagedScript.Proofs.Syntax.StatementGathering
import StagedScript.Proofs.Syntax.CommentRoundTrip
import StagedScript.Proofs.CommandLine.ReadingBack
import StagedScript.Proofs.Value.StringForms
import StagedScript.Value.Hash
import StagedScript.Proofs.Value.Arithmetic
import StagedScript.Proofs.Decimal.Whole
import StagedScript.Proofs.Value.Nesting
import StagedScript.Proofs.Value.Equivalence
import StagedScript.Proofs.Value.Tables
import StagedScript.Proofs.Syntax.PlainPattern
import StagedScript.Proofs.Evaluation.Matching
import StagedScript.Proofs.Evaluation.Calling
import StagedScript.Proofs.Rewriting.Calling
import StagedScript.Proofs.Builtin.Ordering
import StagedScript.Proofs.Builtin.Progression
import StagedScript.Proofs.Builtin.Rounding
import StagedScript.Proofs.Staging.Expansion
import StagedScript.Proofs.Module.Places
import StagedScript.Proofs.Rewriting.Annotation
import StagedScript.Proofs.Module.Siblings
import StagedScript.Proofs.Syntax.Steps
import StagedScript.Proofs.Syntax.Indentation
import StagedScript.Proofs.Syntax.Coverage
import StagedScript.Proofs.Syntax.LineEndings
import StagedScript.Proofs.Syntax.Budget
import StagedScript.Proofs.Syntax.Settling
import StagedScript.Proofs.Syntax.ExpressionSettling
import StagedScript.Proofs.Syntax.StatementSettling
import StagedScript.Proofs.Syntax.Ending
import StagedScript.Proofs.Syntax.FormattedText
import StagedScript.Proofs.Outcome
