import ChartCompiler.Axis.Labels
import ChartCompiler.Input.Axis
import ChartCompiler.Main
import ChartCompiler.Proofs.Grammar.Reader
import ChartCompiler.Proofs.Grammar.Digits
import ChartCompiler.Proofs.Grammar.Scan
import ChartCompiler.Proofs.Grammar.Printed
import ChartCompiler.Proofs.Grammar.Layers
import ChartCompiler.Proofs.Grammar.RoundTrip
import ChartCompiler.Proofs.Build.Additions
import ChartCompiler.Proofs.Build.Calls
import ChartCompiler.Proofs.Build.Fields
import ChartCompiler.Proofs.Build.Merge
import ChartCompiler.Proofs.Build.Closed
import ChartCompiler.Proofs.Build.Drawn
import ChartCompiler.Proofs.Document.Resolves
import ChartCompiler.Proofs.Document.Written
import ChartCompiler.Proofs.Build.WrittenMarks
import ChartCompiler.Proofs.Build.Covered
import ChartCompiler.Proofs.Build.Declared
import ChartCompiler.Proofs.Build.SourceNames
import ChartCompiler.Proofs.Build.Days
import ChartCompiler.Proofs.Build.Capabilities
import ChartCompiler.Proofs.Build.OwnFields
import ChartCompiler.Proofs.Build.Spelling
import ChartCompiler.Proofs.Build.Cells
import ChartCompiler.Proofs.Build.Columns
import ChartCompiler.Proofs.Document.Blanks
import ChartCompiler.Proofs.Document.Numerals
import ChartCompiler.Proofs.Document.Scanned
import ChartCompiler.Proofs.Document.Shown
import ChartCompiler.Proofs.Command
import ChartCompiler.Proofs.Build.Settled
import ChartCompiler.Proofs.Input.Changes
import ChartCompiler.Proofs.Input.Records
import ChartCompiler.Proofs.Input.Plain
import ChartCompiler.Proofs.Input.Readers
import ChartCompiler.Proofs.Input.Outcome
import ChartCompiler.Proofs.Input.Texts
import ChartCompiler.Proofs.Build.Schemes
import ChartCompiler.Proofs.Trendline.Chains
import ChartCompiler.Proofs.Trendline.MethodText
import ChartCompiler.Proofs.Build.Failures
import ChartCompiler.Proofs.Text.Joined
import ChartCompiler.Proofs.Expr.Value
import ChartCompiler.Proofs.Expr.Eval
import ChartCompiler.Proofs.Build.SeriesIds
import ChartCompiler.Proofs.Trendline.FittedCurve
import ChartCompiler.Proofs.Trendline.CurveFields
import ChartCompiler.Proofs.Document.FirstWins
import ChartCompiler.Proofs.Chart.Facets
import ChartCompiler.Proofs.Build.TotalRules
import ChartCompiler.Proofs.Expr.Demand
import ChartCompiler.Proofs.Document.RuleValue
import ChartCompiler.Proofs.Axis.CustomLabels
import ChartCompiler.Proofs.Grammar.Quoted
import ChartCompiler.Proofs.Expr.Rows
import ChartCompiler.Proofs.Build.FormulaTexts
import ChartCompiler.Proofs.Build.DayFields
import ChartCompiler.Proofs.Build.TableEntry
import ChartCompiler.Proofs.Document.MarkOrder
