import ChartScript.Main
import ChartScript.Proofs.Sandbox.Accessor
import ChartScript.Proofs.Sandbox.Dependencies
import ChartScript.Proofs.Expr.Explicit
import ChartScript.Proofs.Grammar.Depth
import ChartScript.Proofs.Sandbox.Reparse
import ChartScript.Proofs.Selector.RoundTrip
import ChartScript.Proofs.Token.Tiling
import ChartScript.Proofs.Token.Seam
import ChartScript.Proofs.Grammar.Alone
import ChartScript.Proofs.Grammar.Along
import ChartScript.Proofs.Grammar.Layout
import ChartScript.Proofs.Selector.WellFormed
import ChartScript.Proofs.Parser.Failure
import ChartScript.Proofs.Selector.Fragment
import ChartScript.Proofs.Sandbox.Frame
import ChartScript.Proofs.Sandbox.Fields
import ChartScript.Proofs.Sandbox.Blacklist
import ChartScript.Proofs.Sandbox.Holes
import ChartScript.Proofs.Sandbox.Comment
import ChartScript.Proofs.Sandbox.Access
import ChartScript.Proofs.Token.Spelling
import ChartScript.Proofs.Token.Quotation
import ChartScript.Proofs.Grammar.Spaced
import ChartScript.Proofs.Parser.Progress
import ChartScript.Proofs.Token.RegexLiteral
import ChartScript.Proofs.Regex.Opening
import ChartScript.Proofs.Regex.CodePoint
import ChartScript.Proofs.Token.CodePoint
import ChartScript.Proofs.Selector.Trimmed
import ChartScript.Proofs.Selector.Spacing
import ChartScript.Proofs.Sandbox.FieldName
import ChartScript.Proofs.Expr.Traversal
import ChartScript.Proofs.Selector.Pieces
import ChartScript.Proofs.Token.Decimal
import ChartScript.Proofs.Parser.Continuation
