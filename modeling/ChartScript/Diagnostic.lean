import ChartScript.Text.Span
import ChartScript.Token.Basic

/-!
# Diagnostic — errors as a reader sees them

A `Diagnostic` is the wording of an error with the stretch of text that it underlines.  This module
words the lexical errors; the modules that declare other errors word theirs.
-/

namespace ChartScript

/-- An error in words. -/
structure Diagnostic where
  message : String
  /-- A stable name for the kind of error. -/
  code : String
  /-- What one may do about the error. -/
  help : Option String
  /-- The stretch of text that the error concerns, and what is wrong there. -/
  label : Option (Span × String)
  /-- The byte that the error concerns. -/
  offset : Option Nat
  deriving DecidableEq, Repr

/-- A diagnostic about a stretch of text, with its offset where the stretch begins. -/
def Diagnostic.labelled (message code : String) (help : Option String) (span : Span)
    (label : String) : Diagnostic :=
  ⟨message, code, help, some (span, label), some span.start⟩

/-- The wording of a lexical error in a text. -/
def LexicalError.diagnostic (source : List Char) (error : LexicalError) : Diagnostic :=
  let span := Span.label source error.start error.stop
  match error.fault with
  | .illegal =>
    .labelled "Unexpected token ILLEGAL" "vexpr::lex::illegal" none span
      "illegal character sequence"
  | .unterminatedString quote =>
    .labelled "Unterminated string literal" "vexpr::lex::unterminated_string" none span
      ("missing closing " ++ String.ofList [quote] ++ " quote")
  | .unterminatedRegex =>
    .labelled "Invalid regular expression: missing /" "vexpr::lex::unterminated_regex" none span
      "regular expression is not closed"
  | .invalidRegex reason =>
    .labelled "Invalid regular expression" "vexpr::lex::invalid_regex" none span reason.message
  | .invalidRegexFlags flags =>
    .labelled ("Invalid regular expression flags: " ++ flags) "vexpr::lex::invalid_regex_flags"
      (some "Valid flags are g, i, m, u and y") span "invalid flags"

end ChartScript
