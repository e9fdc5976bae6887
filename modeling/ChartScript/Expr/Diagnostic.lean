import ChartScript.Diagnostic
import ChartScript.Expr.Parser.State

/-!
# Expr/Diagnostic — the wording of parse errors

A syntax error underlines the token that it concerns.  An unexpected end is the one error whose
offset is not where its underlining begins: the offset is the end, and the last character is
underlined.
-/

namespace ChartScript

/-- The name of a construct that is not supported. -/
def Construct.text : Construct → String
  | .operator mark => "'" ++ mark ++ "'"
  | .reservedWord word => "reserved word '" ++ word ++ "'"
  | .comma => "the comma operator"

/-- The wording of a syntax error in a text. -/
def SyntaxError.diagnostic (source : List Char) (error : SyntaxError) : Diagnostic :=
  let span := Span.label source error.start error.stop
  match error.fault with
  | .unexpectedEnd =>
    { message := "Unexpected end of input"
      code := "vexpr::parse::unexpected_end"
      help := some "The expression is incomplete"
      label := some (span, "input ends here")
      offset := some error.start }
  | .unexpectedNumber =>
    .labelled "Unexpected number" "vexpr::parse::unexpected_number" none span "unexpected number"
  | .unexpectedString =>
    .labelled "Unexpected string" "vexpr::parse::unexpected_string" none span "unexpected string"
  | .unexpectedIdentifier =>
    .labelled "Unexpected identifier" "vexpr::parse::unexpected_identifier" none span
      "unexpected identifier"
  | .unexpectedReserved =>
    .labelled "Unexpected reserved word" "vexpr::parse::unexpected_reserved" none span
      "reserved word"
  | .unexpectedToken text =>
    .labelled ("Unexpected token " ++ text) "vexpr::parse::unexpected_token" none span
      "unexpected token"
  | .disabled construct =>
    .labelled ("Disabled: " ++ construct.text ++ " is not supported in expressions")
      "vexpr::parse::disabled"
      (some ("Expressions may not use assignment, increment, delete, void, typeof or the comma " ++
        "operator"))
      span "not supported"
  | .trailingInput =>
    .labelled "Unexpected token after expression" "vexpr::parse::trailing_input"
      (some "An expression must consist of exactly one complete expression") span
      "unexpected input"
  | .strictOctal =>
    .labelled "Octal literals are not allowed in strict mode." "vexpr::parse::strict_octal" none
      span "octal literal"
  | .duplicateProperty key =>
    .labelled "Duplicate data property in object literal not allowed in strict mode"
      "vexpr::parse::duplicate_property" none span ("duplicate key '" ++ key ++ "'")
  | .tooDeep limit =>
    .labelled "Expression is nested too deeply" "vexpr::parse::too_deep"
      (some ("Expressions may nest at most " ++ toString limit ++ " levels")) span
      "limit reached here"

/-- The wording of a parse error in a text. -/
def ParseError.diagnostic (source : List Char) : ParseError → Diagnostic
  | .lexical error => error.diagnostic source
  | .grammar error => error.diagnostic source

end ChartScript
