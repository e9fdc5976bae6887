import ChartScript.CommandLine.Command
import ChartScript.CommandLine.Report
import ChartScript.Expr.Diagnostic
import ChartScript.Expr.Parser.Basic
import ChartScript.Runtime

/-!
# CommandLine/Run — what a command line prints

`run` carries out a command line.  A command that succeeds prints one JSON value on standard output.
A command that fails prints nothing there and says why on standard error; its exit status is 1 when
the expression or the selector is at fault and 2 when the command line is.
-/

namespace ChartScript.CommandLine

/-- What the run of a program leaves behind. -/
structure Outcome where
  /-- The exit status. -/
  exit : Nat
  stdout : String
  stderr : String
  deriving DecidableEq, Repr

/-- The wording of an error in a command line. -/
def UsageError.message : UsageError → String
  | unknownOption word => "unexpected argument '" ++ word ++ "'"
  | missingValue name => "the option '--" ++ name ++ "' needs a value"
  | unwantedValue name => "the option '--" ++ name ++ "' takes no value"
  | repeatedOption name => "the option '--" ++ name ++ "' is given more than once"
  | missingCommand => "a command is missing: expr or selector"
  | unknownCommand name => "unknown command '" ++ name ++ "'"
  | missingOperand => "the text to read is missing"
  | extraOperand word => "unexpected argument '" ++ word ++ "'"

/-- The lines that say what is wrong. -/
def complaint (message : String) (help : Option String) : String :=
  "error: " ++ message ++ "\n" ++
    match help with
    | none => ""
    | some help => "help: " ++ help ++ "\n"

/-- The outcome of a command that succeeds. -/
def Outcome.success (result : Json) : Outcome := ⟨0, result.pretty ++ "\n", ""⟩

/-- The outcome of a command whose operand is at fault. -/
def Outcome.failure (diagnostic : Diagnostic) : Outcome :=
  ⟨1, "", complaint diagnostic.message diagnostic.help⟩

/-- Parses an expression and goes on with its tree. -/
def withTree (expression : String) (next : Expr → Outcome) : Outcome :=
  match Expr.parse expression with
  | .error error => .failure (error.diagnostic expression.toList)
  | .ok tree => next tree

/-- Carries out a command. -/
def Command.run : Command → Outcome
  | compile expression options =>
    withTree expression fun tree =>
      match (Sandbox.ofOptions options).compile tree with
      | .error error => .failure error.diagnostic
      | .ok output => .success output.toJson
  | tree expression => withTree expression fun tree => .success tree.toJson
  | selector text config =>
    match Selector.parse config text with
    | .error error => .failure (error.diagnostic text.toList)
    | .ok streams => .success (.array (streams.map Stream.toJson))

/-- **Carries out a command line.** -/
def run (words : List String) : Outcome :=
  match Command.read words with
  | .error error => ⟨2, "", complaint error.message none⟩
  | .ok command => command.run

end ChartScript.CommandLine
