import PolyPlot.Coeffs.Analysis
import PolyPlot.Coeffs.Basic
import PolyPlot.Coeffs.Canonical
import PolyPlot.Coeffs.Printer
import PolyPlot.CommandLine.Arguments
import PolyPlot.CommandLine.Report
import PolyPlot.Curve.Basic
import PolyPlot.Curve.Palette
import PolyPlot.Decimal.Digits
import PolyPlot.Decimal.Layout
import PolyPlot.Decimal.Reading
import PolyPlot.Decimal.Rounding
import PolyPlot.Exact.Expansion
import PolyPlot.Exact.Form
import PolyPlot.Exact.Poly
import PolyPlot.Exact.System
import PolyPlot.Expression.Compilation
import PolyPlot.Expression.Error
import PolyPlot.Expression.Evaluation
import PolyPlot.Expression.Normal
import PolyPlot.Expression.Reading
import PolyPlot.Expression.Tree
import PolyPlot.Json.Basic
import PolyPlot.Json.Reader
import PolyPlot.Json.Writer
import PolyPlot.Log.Logging
import PolyPlot.Log.Record
import PolyPlot.Log.Template
import PolyPlot.Log.Timestamp
import PolyPlot.Main
import PolyPlot.Page.Editor
import PolyPlot.Page.Pass
import PolyPlot.Page.Session
import PolyPlot.Page.Visit
import PolyPlot.Plot.Color
import PolyPlot.Plot.Figure
import PolyPlot.Plot.Grid
import PolyPlot.Plot.Picture
import PolyPlot.Plot.Trace
import PolyPlot.Plot.Viewport
import PolyPlot.Report.Analysis
import PolyPlot.Report.Answer
import PolyPlot.Report.CrossCheck
import PolyPlot.Scalar
import PolyPlot.Scalar.Binary
import PolyPlot.Scalar.Rational
import PolyPlot.Service.Check
import PolyPlot.Service.Number
import PolyPlot.Service.Request
import PolyPlot.Service.Route
import PolyPlot.Settings
import PolyPlot.Text.Blank
import PolyPlot.Text.Digit
import PolyPlot.Text.Lowercase
import PolyPlot.Text.Path
import PolyPlot.Text.Printable
import PolyPlot.Text.Quoted
import PolyPlot.Text.Range
import PolyPlot.Yaml.Basic
import PolyPlot.Yaml.Block
import PolyPlot.Yaml.Bytes
import PolyPlot.Yaml.Kind
import PolyPlot.Yaml.Moment
import PolyPlot.Yaml.Name
import PolyPlot.Yaml.Node
import PolyPlot.Yaml.Number
import PolyPlot.Yaml.Quoted
import PolyPlot.Yaml.Token
import PolyPlot.Yaml.Value
import PolyPlot.Proofs.Grammar.Derivation
import PolyPlot.Proofs.Grammar.Soundness
import PolyPlot.Proofs.Grammar.Completeness
import PolyPlot.Proofs.Grammar.Descent
import PolyPlot.Proofs.Coeffs.Length
import PolyPlot.Proofs.Coeffs.Polynomial
import PolyPlot.Proofs.Answers
import PolyPlot.Proofs.Coeffs.Tolerance
import PolyPlot.Proofs.Evaluation.Pointwise
import PolyPlot.Proofs.Exact.Agreement
import PolyPlot.Proofs.Report.CrossCheck
import PolyPlot.Proofs.Coeffs.Trim
import PolyPlot.Proofs.Decimal.Numerals
import PolyPlot.Proofs.Printer.Entry
import PolyPlot.Proofs.Printer.Evaluation
import PolyPlot.Proofs.Printer.Reading
import PolyPlot.Proofs.Printer.RoundTrip
import PolyPlot.Proofs.Evaluation.Refusal
import PolyPlot.Proofs.Grammar.Refusal
import PolyPlot.Proofs.Evaluation.Outcome
import PolyPlot.Proofs.Normal.Grouping
import PolyPlot.Proofs.Evaluation.Grouping
import PolyPlot.Proofs.Curve.Alteration
import PolyPlot.Proofs.Curve.History
import PolyPlot.Proofs.Page.Pass
import PolyPlot.Proofs.Page.Editing
import PolyPlot.Proofs.Grammar.Viability
import PolyPlot.Proofs.Plot.Ticks
import PolyPlot.Proofs.Printer.Acceptance
import PolyPlot.Proofs.Double.Division
import PolyPlot.Proofs.Double.SquareRoot
import PolyPlot.Proofs.Double.Overflow
import PolyPlot.Proofs.Coeffs.Range
import PolyPlot.Proofs.Report.Analysis
import PolyPlot.Proofs.Double.Growth
import PolyPlot.Proofs.Plot.Grid
import PolyPlot.Proofs.Plot.Trace
import PolyPlot.Proofs.Plot.Lines
import PolyPlot.Proofs.Normal.Settled
import PolyPlot.Proofs.Normal.Idempotence
import PolyPlot.Proofs.Grammar.Position
import PolyPlot.Proofs.Normal.Superscript
import PolyPlot.Proofs.Evaluation.Superscript
import PolyPlot.Proofs.Coeffs.Degree
import PolyPlot.Proofs.Double.NearestWhole
import PolyPlot.Proofs.Evaluation.Exponent
import PolyPlot.Proofs.Coeffs.Finite
import PolyPlot.Proofs.Evaluation.Overflow
import PolyPlot.Proofs.Evaluation.Loosening
import PolyPlot.Proofs.Evaluation.Cap
import PolyPlot.Proofs.CommandLine.CrossCheck
import PolyPlot.Proofs.Report.Sanitizing
import PolyPlot.Proofs.Settings.Conversion
import PolyPlot.Proofs.Settings.Reading
import PolyPlot.Proofs.Scalar.Real
import PolyPlot.Proofs.Coeffs.Roots
import PolyPlot.Proofs.Coeffs.Inverse
import PolyPlot.Proofs.Double.Factor
import PolyPlot.Proofs.Plot.Motion
import PolyPlot.Proofs.Page.Navigation
import PolyPlot.Proofs.Coeffs.Canonical
import PolyPlot.Proofs.Evaluation.FormalDegree
import PolyPlot.Proofs.Log.Delivery
import PolyPlot.Proofs.Log.Line
