import Formula.AngleUnit
import Formula.Arithmetic
import Formula.Binary64
import Formula.Binary64.Hypotenuse
import Formula.Binary64.Whole
import Formula.CommandLine
import Formula.CommandLine.Options
import Formula.Compile
import Formula.Constant
import Formula.Context
import Formula.Decimal
import Formula.Decimal.Layout
import Formula.Decimal.Numeral
import Formula.Decimal.Shortest
import Formula.Error
import Formula.Event
import Formula.Expr
import Formula.Expr.Build
import Formula.Expr.Dump
import Formula.Expr.Evaluate
import Formula.Expr.Shape
import Formula.Expr.Surface
import Formula.Expr.Variables
import Formula.Function
import Formula.Logged
import Formula.Main
import Formula.Operator
import Formula.ParseTree
import Formula.ParseTree.Grammar
import Formula.ParseTree.Primary
import Formula.ParseTree.Rule
import Formula.Proofs.Abbreviations
import Formula.Proofs.Binary64
import Formula.Proofs.Bindings
import Formula.Proofs.BuildFailures
import Formula.Proofs.Building
import Formula.Proofs.Completeness
import Formula.Proofs.Composition
import Formula.Proofs.ContextHistory
import Formula.Proofs.DepthPositions
import Formula.Proofs.Derivation
import Formula.Proofs.ErrorPositions
import Formula.Proofs.Evaluation
import Formula.Proofs.EvaluationLog
import Formula.Proofs.ExactValue
import Formula.Proofs.Factorial
import Formula.Proofs.FirstOccurrences
import Formula.Proofs.Grouping
import Formula.Proofs.Lexing
import Formula.Proofs.LineReading
import Formula.Proofs.Locality
import Formula.Proofs.Meaning
import Formula.Proofs.Metering
import Formula.Proofs.Multiplication
import Formula.Proofs.NestingBound
import Formula.Proofs.NumberLiterals
import Formula.Proofs.Numerals
import Formula.Proofs.Obtaining
import Formula.Proofs.OneShot
import Formula.Proofs.Parentheses
import Formula.Proofs.Parsing
import Formula.Proofs.Prediction
import Formula.Proofs.Prompting
import Formula.Proofs.Quotation
import Formula.Proofs.RecursionDepth
import Formula.Proofs.Reentry
import Formula.Proofs.Relevance
import Formula.Proofs.Relocation
import Formula.Proofs.Remainder
import Formula.Proofs.Rendering
import Formula.Proofs.RoundTrip
import Formula.Proofs.Rounding
import Formula.Proofs.SessionComposition
import Formula.Proofs.SessionProtocol
import Formula.Proofs.Soundness
import Formula.Proofs.Spacing
import Formula.Proofs.Substitution
import Formula.Proofs.SupplierCalls
import Formula.Proofs.Supplying
import Formula.Proofs.TokenPatterns
import Formula.Proofs.Tokenization
import Formula.Proofs.ValueDialogue
import Formula.Proofs.ViablePrefix
import Formula.Proofs.VisitOrder
import Formula.Session
import Formula.Session.Console
import Formula.Session.Dialogue
import Formula.Session.Evaluation
import Formula.Session.Input
import Formula.Session.Report
import Formula.Session.Round
import Formula.Text.Blank
import Formula.Text.Quoted
import Formula.Text.Unprintable
import Formula.Token
import Formula.Token.Lexer
